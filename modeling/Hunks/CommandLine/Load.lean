import Hunks.CommandLine.Console

namespace Hunks.CommandLine

structure LoadSettings where
  base : Int
  output : String
  descriptors : String
  interactive : Bool
  verbose : Bool

namespace LoadSettings

def default : LoadSettings where
  base := ImageBase.default
  output := ""
  descriptors := ""
  interactive := false
  verbose := false

def grammar : Grammar LoadSettings := [
  ⟨["-h", "--help"], .help⟩,
  ⟨["-b", "--base"], .value fun text settings ↦
    (Text.literal? text).map fun base ↦ { settings with base }⟩,
  ⟨["-o"], .value fun output settings ↦ some { settings with output }⟩,
  ⟨["--fd-dir"], .value fun descriptors settings ↦ some { settings with descriptors }⟩,
  ⟨["--interactive"], .flag fun settings ↦ { settings with interactive := true }⟩,
  ⟨["-v"], .flag fun settings ↦ { settings with verbose := true }⟩]

end LoadSettings

namespace LoadReport

def regionLines (memory : Memory) : List String :=
  "memory blocks:" :: memory.map fun region ↦
    let range := s!"{Text.address region.start}-{Text.address region.stop}"
    s!"  {Text.padRight 12 region.name} {range} {region.access}"

def residentLines (module : Resident) : List String :=
  let name := s!"{Text.address module.address} {module.name}"
  s!"  {name} (version {module.version}, {module.vectors.length} functions)" ::
    module.vectors.map fun vector ↦ s!"    {Text.address vector.address} {vector.name}"

def titled (title : String) (lines : List String) : List String :=
  if lines.isEmpty then [] else title :: lines

def ofKind (result : LoadResult) (kind : ErrorKind) : List Diagnostic :=
  result.diagnostics.filter fun diagnostic ↦ diagnostic.kind = kind

/-- What a load found, for people to read. -/
def summary (result : LoadResult) (program : Program) : List String :=
  let unresolved := (ofKind result .unresolvedExternal).map fun diagnostic ↦
    s!"  {Text.address diagnostic.address} {diagnostic.subject}"
  let unnamed := (ofKind result .descriptorMissing).map fun diagnostic ↦
    s!"  {diagnostic.subject} (function table at {Text.address diagnostic.address})"
  let entries := ", ".intercalate (program.entryPoints.toList.map Text.address)
  regionLines program.memory ++
    titled "resident modules:" (result.residents.flatMap residentLines) ++
    titled "unresolved external symbols:" unresolved ++
    titled "libraries without function descriptions:" unnamed ++
    [s!"entry points: {entries}"]

end LoadReport

namespace LoadTool

def resolver (settings : LoadSettings) (files : FileTree) : Option (Resolver Console) :=
  if settings.descriptors ≠ "" then
    some (.ofDirectory files settings.descriptors)
  else if settings.interactive then
    some (.ofPrompt files Console.prompt)
  else
    none

/-- Loads a file into an empty program. -/
def load (settings : LoadSettings) (path : String) :
    Action Console LoadError (LoadResult × Program) := do
  let files := (← get).files
  let base ← Action.ofExcept (ImageBase.validate settings.base)
  Action.info s!"loading {path}..."
  let data ← Action.ofExcept ((files.read path).mapError fun e ↦ .resolve (.file e))
  let loader : Loader Console := ⟨Catalog.system, base, resolver settings files⟩
  let work : Loading.Load Console (LoadResult × Program) := do
    let result ← Loading.load loader data
    return (result, (← get).host.program)
  work.focus (fun console ↦ ⟨Host.ofProgram .empty, none, console⟩) fun loading _ ↦ loading.lookups

def save (path : String) (base : Int) (blob : Bytes) : Action Console Crash Unit := do
  let console ← get
  match console.files.write path blob with
  | .ok files =>
    set { console with files }
    Action.info s!"wrote {blob.size} bytes relocated to {Text.address base} to {path}"
  | .error e => throw (.file e)

def run (settings : LoadSettings) (path : String) : Command := do
  match ← (load settings path).attempt with
  | .error e =>
    match e with
    | .resolve e =>
      if e.isMild then logError s!"can't load {path}: {e.message}" else throw (.resolve e)
    | e => logError s!"can't load {path}: {e.message}"
    return 1
  | .ok (result, program) =>
    Action.forEach (LoadReport.summary result program) Console.printLine
    if settings.output = "" then
      return 0
    if result.image.isNone then
      logError s!"{path} doesn't contain hunks that could be written"
      return 1
    save settings.output settings.base ((Image.join? 0 result.buffers).getD #[])
    return 0

end LoadTool

end Hunks.CommandLine
