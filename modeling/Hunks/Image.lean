import Hunks.Hunk

namespace Hunks

/-- A place in a segment that holds an address in the segment numbered `target`. -/
structure Relocation where
  target : Int
  offset : Int
  width : Width
  addend : Int
  kind : RelocKind
  pcRelative : Bool
  deriving DecidableEq, Repr

structure Definition where
  name : String
  offset : Int
  kind : ExternalKind
  deriving DecidableEq, Repr

namespace Definition

def absolute (definition : Definition) : Bool :=
  definition.kind = .absolute

end Definition

structure Reference where
  name : String
  kind : RefKind
  width : Width
  offsets : List Int
  external : ExternalKind
  commonSize : Option Int
  deriving DecidableEq, Repr

/-- A segment as it lies in memory. A BSS segment has no data; other data may be shorter than the
segment, which then ends in zeros. -/
structure Segment where
  kind : SegmentKind
  name : String
  size : Nat
  data : Option Bytes
  memFlags : Int
  memAttr : Option Int
  dataOffset : Int
  relocs : List Relocation
  definitions : List Definition
  references : List Reference
  symbols : List SymbolEntry
  debug : List Debug.Info
  deriving DecidableEq, Repr

namespace Segment

/-- The displacement bits of a branch instruction. -/
def branchMask : Nat := 0x03fffffc

/-- The part of a patched value that does not depend on addresses, as the segment stores it. Past
its data a segment holds zeros. -/
def addend? (data : Option Bytes) (offset : Int) (width : Width) (kind : RelocKind) :
    Option Int :=
  match data with
  | none => some 0
  | some data =>
    if data.size < offset + width.bytes then
      some 0
    else if kind = .relReloc26 then
      (Bytes.field? data offset 4).map fun n ↦ Int.bmod (n &&& branchMask : Nat) 0x4000000
    else
      (Bytes.field? data offset width.bytes).map fun n ↦ Bytes.signed width.bytes n

def content (segment : Segment) : Bytes :=
  let data := segment.data.getD #[]
  data ++ Bytes.zeros (segment.size - data.size)

/-- The distinct elements of a sorted list with their numbers of occurrences. -/
def runs : List Int → List (Int × Nat)
  | [] => []
  | a :: rest =>
    match runs rest with
    | (b, n) :: more => if a = b then (a, n + 1) :: more else (a, 1) :: (b, n) :: more
    | [] => [(a, 1)]

def targetCounts (segment : Segment) : List (Int × Nat) :=
  runs ((segment.relocs.map Relocation.target).mergeSort)

def targets (segment : Segment) : List Int :=
  segment.targetCounts.map Prod.fst

def relocsTo (segment : Segment) (target : Int) : List Relocation :=
  segment.relocs.filter fun reloc ↦ reloc.target = target

def symbolAt? (segment : Segment) (offset : Int) : Option String :=
  (segment.symbols.find? fun symbol ↦ symbol.value = offset).map SymbolEntry.name

def describe (id : Nat) (segment : Segment) : String :=
  let relocs := ",".intercalate
    (segment.targetCounts.map fun (target, n) ↦ s!"(#{target}:size={n})")
  s!"[#{id}:{segment.kind.name}:{segment.name}:size={segment.size}," ++
    s!"flags={Text.address segment.memFlags},relocs={relocs}," ++
    s!"defs={segment.definitions.length},refs={segment.references.length}," ++
    s!"symbols={segment.symbols.length},debug={segment.debug.length}]"

def relocations (data : Option Bytes) (kind : RelocKind) (group : RelocGroup) : List Relocation :=
  group.offsets.map fun offset ↦ {
    target := group.hunk
    offset
    width := kind.width
    addend := (addend? data offset kind.width kind).getD 0
    kind
    pcRelative := kind.pcRelative }

def definition? (entry : External) : Option Definition :=
  if entry.kind.isDefinition then
    some ⟨entry.name, entry.value.getD 0, entry.kind⟩
  else
    none

def reference? (entry : External) : Option Reference :=
  entry.kind.reference?.map fun (kind, width) ↦
    ⟨entry.name, kind, width, entry.offsets.getD [], entry.kind, entry.commonSize⟩

def storedData (kind : SegmentKind) (size : Nat) (content : SegmentContent) : Option Bytes :=
  if kind = .bss then
    none
  else
    let data := content.data.getD #[]
    some (data ++ Bytes.zeros (size - data.size))

def ofHunk (kind : SegmentKind) (content : SegmentContent) (hunk : Hunk) : Segment :=
  let size := (hunk.sizeLongs * 4).toNat
  let data := storedData kind size content
  let externals := hunk.externals.getD []
  {
    kind
    name := hunk.name
    size
    data
    memFlags := hunk.memFlags
    memAttr := hunk.memAttr
    dataOffset := content.dataOffset.getD 0
    relocs := hunk.relocs.flatMap fun (kind, groups) ↦ groups.flatMap (relocations data kind)
    definitions := externals.filterMap definition?
    references := externals.filterMap reference?
    symbols := hunk.symbols.getD []
    debug := hunk.debugInfos }

end Segment

/-- The segments of a program, numbered from zero. -/
structure Image where
  kind : FileKind
  segments : List Segment
  deriving DecidableEq, Repr

namespace Image

def isProgram (image : Image) : Bool :=
  image.kind = .program

def size (image : Image) : Nat :=
  image.segments.foldr (fun segment size ↦ segment.size + size) 0

def describe (image : Image) : String :=
  let segments := image.segments.zipIdx.map fun (segment, id) ↦ segment.describe id
  "<" ++ ",".intercalate segments ++ ">"

/-- What there is to say about the relocations and externals of a hunk. -/
def notes (id : Nat) (hunk : Hunk) : Log :=
  let relocs : List Report := hunk.relocs.flatMap fun (kind, groups) ↦ groups.map fun group ↦
    let count := group.offsets.length
    let title := (Kind.relocs kind).title
    ⟨.debug, s!"hunk #{id}: {count} {title} relocations referencing hunk #{group.hunk}"⟩
  let externals : List Report := (hunk.externals.getD []).filterMap fun entry ↦
    if entry.kind.isDefinition || entry.kind.reference?.isSome then
      none
    else
      let what := s!"references of type {entry.kind.name} to symbol {entry.name}"
      some ⟨.warning, s!"hunk #{id}: {what} not supported"⟩
  .ofList (relocs ++ externals)

def ofFile (file : File) : Action Unit ParseError Image := do
  let hunks ← file.hunks
  let segments ← Action.foldl (fun (segments : Array Segment) hunk ↦ do
    match hunk.segment with
    | none => throw .noSegment
    | some (kind, content) =>
      let segment := Segment.ofHunk kind content hunk
      Action.tell (notes segments.size hunk)
      Action.debug s!"segment {segment.describe segments.size}"
      return segments.push segment) #[] hunks
  let image : Image := ⟨file.kind, segments.toList⟩
  Action.info s!"image with {image.segments.length} segments, {image.size} bytes in total"
  return image

end Image

end Hunks
