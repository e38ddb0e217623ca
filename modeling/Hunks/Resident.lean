import Hunks.Descriptor.Resolver
import Hunks.Host
import Hunks.Resident.InitData

namespace Hunks

namespace Resident

/-- A function of a library by its place in the table of vectors. -/
structure Vector where
  index : Nat
  address : Int
  name : String
  parameters : List Parameter
  deriving DecidableEq, Repr

/-- Addresses that a module gives for its automatic initialization. -/
structure InitTable where
  address : Int
  functions : Int
  data : Int
  init : Int
  deriving DecidableEq, Repr

end Resident

/-- A module that stays in memory, found by the structure that announces it. -/
structure Resident where
  address : Int
  flags : Nat
  version : Nat
  type : Nat
  priority : Int
  name : String
  idString : String
  init : Int
  table : Option Resident.InitTable
  vectors : List Resident.Vector
  initData : List InitData.Command
  deriving DecidableEq, Repr

namespace Resident

def matchWord : List UInt8 := [0x4a, 0xfc]

def structSize : Nat := 26

def tableSize : Nat := 16

def maxNameLength : Nat := 256

/-- The flag that asks for automatic initialization. -/
def autoInit : Nat := 0x80

def standardVectors : List String :=
  ["LIB_OPEN", "LIB_CLOSE", "LIB_EXPUNGE", "LIB_EXTFUNC"]

inductive ScanError where
  | host (e : HostError)
  | resolve (e : ResolveError)
  deriving DecidableEq, Repr

/-- What a scan asks for types and for descriptors of libraries. -/
structure Sources (ρ : Type) where
  types : Option Catalog
  resolver : Option (Resolver ρ)

/-- The state of a scan; no library is asked for twice. -/
structure Scanner (ρ : Type) where
  host : Host
  registry : Registry
  asked : List String
  diagnostics : Array Diagnostic
  lookups : ρ

namespace Scanner

variable {ρ : Type}

abbrev Scan (ρ α : Type) : Type := Action (Scanner ρ) ScanError α

def onHost {α : Type} (operation : Operation) (address : Int) (x : Host.Access α) : Scan ρ α :=
  ((Host.call operation (some address) x).mapError .host).focus Scanner.host
    fun host scanner ↦ { scanner with host }

/-- Mentions a failure of the host and goes on. -/
def annotate {α : Type} (operation : Operation) (address : Int) (x : Host.Access α) :
    Scan ρ Unit := do
  match ← (onHost operation address x).attempt with
  | .ok _ => pure ()
  | .error (.host e) => Action.warn e.message
  | .error e => throw e

def read (address : Int) (size : Nat) : Scan ρ (List UInt8) := do
  return (← onHost .readBytes address (Host.readBytes address size)).toList

def readNumber (size : Nat) (address : Int) : Scan ρ Nat := do
  return Bytes.toNat (← read address size)

def contains (address : Int) : Scan ρ Bool :=
  onHost .contains address (Host.contains address)

/-- More rounds than a loop takes that goes up through memory. -/
def roundLimit : Scan ρ Nat := do
  return (← get).host.program.memory.foldr (fun region n ↦ region.size.toNat + 1 + n) 1

def typeNamed (types : Option Catalog) (name : String) (size : Int) : DataType :=
  (types.bind (·.get? name)).getD ⟨name, size⟩

def markData (address : Int) (type : DataType) : Scan ρ Unit :=
  annotate .createData address (Host.createData address (some type))

def markLabel (address : Int) (name : String) : Scan ρ Unit :=
  annotate .createLabel address (Host.createLabel address name Label.analysis)

def declare (address : Int) (name : String) (parameters : List Parameter) : Scan ρ Unit := do
  annotate .declareFunction address (Host.declareFunction address name parameters)
  annotate .addEntryPoint address (Host.addEntryPoint address)

/-- A name ends at a NUL or at the end of a line. -/
def readName (address : Int) : Scan ρ String := do
  let found ← Action.repeatUpTo maxNameLength (fun (name : List UInt8) ↦ do
    let b ← readNumber 1 (address + name.length)
    return if b = 0 ∨ b = 0x0d ∨ b = 0x0a then .inr name else .inl (b.toUInt8 :: name)) []
  match found with
  | .inl name | .inr name => return Text.ofLatin1 name.reverse

inductive InitStop where
  | data (stop : InitData.Stop)
  | scan (e : ScanError)

def walkStep (found : Int × Array InitData.Command) :
    Scan ρ ((Int × Array InitData.Command) ⊕ Array InitData.Command) := do
  let (address, commands) := found
  let readByte (address : Int) := (readNumber (ρ := ρ) 1 address).mapError InitStop.scan
  match ← (InitData.readCommand readByte .data address).attempt with
  | .ok command =>
    markData address ⟨"InitData", command.length⟩
    return .inl (address + command.length, commands.push command)
  | .error (.data stop) =>
    Action.debug s!"InitData ends: {stop.message}"
    return .inr commands
  | .error (.scan (.host e)) =>
    Action.debug s!"InitData ends: {e.message}"
    return .inr commands
  | .error (.scan e) => throw e

/-- The commands from an address on, up to one that cannot be read. -/
def walkInitData (address : Int) : Scan ρ (List InitData.Command) := do
  match ← Action.repeatUpTo (← roundLimit) walkStep (address, #[]) with
  | .inl (_, commands) | .inr commands => return commands.toList

def ask (resolver : Resolver ρ) (library : String) : Scan ρ (Option Descriptor) := do
  let answer ← ((resolver library).attempt (δ := ScanError)).focus Scanner.lookups
    fun lookups scanner ↦ { scanner with lookups }
  match answer with
  | .error e =>
    if e.isMild then
      Action.warn s!"can't read function descriptions for {library}: {e.message}"
      return none
    else
      throw (.resolve e)
  | .ok none => return none
  | .ok (some descriptor) =>
    modify fun scanner ↦ { scanner with registry := scanner.registry.add descriptor }
    return some descriptor

def requestDescriptor (sources : Sources ρ) (library : String) : Scan ρ (Option Descriptor) := do
  match sources.resolver with
  | none => return none
  | some resolver =>
    if library ∈ (← get).asked then
      return none
    modify fun scanner ↦ { scanner with asked := library :: scanner.asked }
    ask resolver library

/-- Where the table of vectors has an entry, and the function there; `none` at its end. -/
def readVector (relative : Bool) (table : Int) (i : Nat) : Scan ρ (Option (Int × Int)) := do
  if relative then
    let slot := table + (i + 1) * 2
    let distance ← readNumber 2 slot
    return if distance = 0xffff then none else some (slot, table + Bytes.signed 2 distance)
  else
    let slot := table + i * 4
    return some (slot, ← readNumber 4 slot)

def vectorName (i : Nat) (prototype : Option Descriptor.Prototype) : String :=
  match standardVectors[i]? with
  | some name => name
  | none =>
    match prototype with
    | some prototype => prototype.name
    | none => "LibFunc_" ++ Text.padLeft '0' 3 (toString (i - standardVectors.length))

def argumentType (type : Option String) : String :=
  match type with
  | none | some "" => "void *"
  | some type => type

def vectorParameters (prototype : Option Descriptor.Prototype) : List Parameter :=
  let arguments := (prototype.map Descriptor.Prototype.arguments).getD []
  ⟨"base", some "BaseLib *", some "A6"⟩ :: arguments.map fun argument ↦
    ⟨argument.name, some (argumentType argument.type), some argument.register⟩

/-- The descriptor to use from a vector on; the first one after the standard vectors that lacks a
descriptor gets this recorded. -/
def descriptorFor (sources : Sources ρ) (library : String) (table : Int) (i : Nat)
    (known : Option Descriptor) : Scan ρ (Option Descriptor) := do
  if known.isSome ∨ i < standardVectors.length then
    return known
  let found ← requestDescriptor sources library
  if found.isNone ∧ i = standardVectors.length then
    modify fun scanner ↦ { scanner with
      diagnostics := scanner.diagnostics.push ⟨.descriptorMissing, library, table⟩ }
    Action.info s!"no function descriptions for {library}, using generic names"
  return found

def markSlot (types : Option Catalog) (relative : Bool) (slot target : Int) : Scan ρ Unit := do
  if relative then
    markData slot (typeNamed types "word" 2)
    annotate .addReference slot (Host.addReference slot target)
  else
    markData slot (typeNamed types "pointer" 4)

def decodeVector (sources : Sources ρ) (library : String) (relative : Bool) (table : Int)
    (found : Option Descriptor × Array Vector) (slot target : Int) :
    Scan ρ (Option Descriptor × Array Vector) := do
  let (known, vectors) := found
  let i := vectors.size
  let descriptor ← descriptorFor sources library table i known
  markSlot sources.types relative slot target
  let prototype :=
    if i < standardVectors.length then none
    else descriptor.bind (·.at? (i - standardVectors.length : Nat))
  let name := vectorName i prototype
  let parameters := vectorParameters prototype
  Action.debug s!"library function #{i} {name} at {Text.address target}"
  declare target name parameters
  return (descriptor, vectors.push ⟨i, target, name, parameters⟩)

def libraryOf (module : String) : String :=
  module.replace "." "_"

def tableStep (sources : Sources ρ) (module : String) (relative : Bool) (table : Int)
    (found : Option Descriptor × Array Vector) :
    Scan ρ ((Option Descriptor × Array Vector) ⊕ Array Vector) := do
  match ← (readVector relative table found.2.size).attempt with
  | .error (.host e) =>
    Action.debug s!"function table of {module} ends: {e.message}"
    return .inr found.2
  | .error e => throw e
  | .ok none => return .inr found.2
  | .ok (some (slot, target)) =>
    if !(← contains target) then
      return .inr found.2
    return .inl (← decodeVector sources (libraryOf module) relative table found slot target)

/-- The functions of a library. A table that starts with a word of ones holds distances from its
start, any other one addresses; both end where an entry leads outside of memory. -/
def decodeTable (sources : Sources ρ) (module : String) (table : Int) : Scan ρ (List Vector) := do
  let known := (← get).registry.get? (libraryOf module)
  let relative := (← readNumber 2 table) = 0xffff
  match ← Action.repeatUpTo (← roundLimit) (tableStep sources module relative table)
      (known, #[]) with
  | .inl (_, vectors) | .inr vectors => return vectors.toList

def initParameters : List Parameter := [
  ⟨"libBase", some "void *", some "A6"⟩, ⟨"seglist", some "void *", some "A0"⟩,
  ⟨"lib", some "BaseLib *", some "D0"⟩]

def analyzeTable (sources : Sources ρ) (module : Resident) : Scan ρ Resident := do
  let address := module.init
  let raw := (← read address tableSize).toArray
  let long (i : Nat) : Int := Bytes.toNat (raw.extract (4 * i) (4 * i + 4)).toList
  markData address (typeNamed sources.types "InitTable" tableSize)
  let table : InitTable := ⟨address, long 1, long 2, long 3⟩
  let tag := Text.upperHex 6 module.address
  declare table.init s!"it_InitFunc_{tag}" initParameters
  let initData ←
    if table.data = 0 then
      pure []
    else
      markLabel table.data s!"it_DataInit_{tag}"
      walkInitData table.data
  markLabel table.functions s!"it_FuncTable_{tag}"
  let vectors ← decodeTable sources module.name table.functions
  return { module with table := some table, vectors, initData }

/-- Decodes and annotates the module announced at an address. -/
def analyze (sources : Sources ρ) (address : Int) : Scan ρ Resident := do
  let raw := (← read address structSize).toArray
  let number (start size : Nat) : Nat := Bytes.toNat (raw.extract start (start + size)).toList
  markData address (typeNamed sources.types "Resident" structSize)
  let flags := number 10 1
  let version := number 11 1
  let idAddress : Int := number 18 4
  let name ← readName (number 14 4)
  let hasId ← if idAddress = 0 then pure false else contains idAddress
  let idString ← if hasId then readName idAddress else pure ""
  let place := Text.address address
  Action.info
    s!"resident module {name} at {place}, version {version}, flags 0x{Text.hex 2 flags}"
  let module : Resident := {
    address
    flags
    version
    type := number 12 1
    priority := Bytes.signed 1 (number 13 1)
    name
    idString := Text.strip idString
    init := number 22 4
    table := none
    vectors := []
    initData := [] }
  if flags &&& autoInit ≠ 0 then
    analyzeTable sources module
  else
    return module

/-- The module whose match word is at an address. Elsewhere the word is part of code or data, as
the address after it shows. -/
def examine (sources : Sources ρ) (address : Int) : Scan ρ (Option Resident) := do
  match ← (readNumber 4 (address + 2)).attempt with
  | .error (.host _) => return none
  | .error e => throw e
  | .ok tag =>
    if (tag : Int) ≠ address then
      return none
    match ← (analyze sources address).attempt with
    | .ok module => return some module
    | .error (.host e) =>
      let place := Text.address address
      Action.warn s!"can't decode resident module at {place}: {e.message}"
      return none
    | .error e => throw e

def scanStep (sources : Sources ρ) (found : Int × Array Resident) :
    Scan ρ ((Int × Array Resident) ⊕ Array Resident) := do
  let (cursor, modules) := found
  match ← onHost .find cursor (Host.find cursor matchWord) with
  | none => return .inr modules
  | some address =>
    match ← examine sources address with
    | some module => return .inl (address + 2, modules.push module)
    | none => return .inl (address + 2, modules)

/-- The modules in memory from an address on. -/
def scan (sources : Sources ρ) (start : Int) : Scan ρ (List Resident) := do
  match ← Action.repeatUpTo (← roundLimit) (scanStep sources) (start, #[]) with
  | .inl (_, modules) | .inr modules =>
    Action.info s!"found {modules.size} resident modules"
    return modules.toList

end Scanner

end Resident

end Hunks
