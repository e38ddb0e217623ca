import Hunks.Debug
import Hunks.File

namespace Hunks

/-- A segment block with the blocks that belong to it. -/
structure Hunk where
  segment : Option (SegmentKind × SegmentContent)
  name : String
  symbols : Option (List SymbolEntry)
  externals : Option (List External)
  relocs : List (RelocKind × List RelocGroup)
  debug : List Bytes
  sizeLongs : Int
  memFlags : Int
  memAttr : Option Int
  deriving DecidableEq, Repr

namespace Hunk

def empty : Hunk where
  segment := none
  name := ""
  symbols := none
  externals := none
  relocs := []
  debug := []
  sizeLongs := 0
  memFlags := 0
  memAttr := none

def debugInfos (hunk : Hunk) : List Debug.Info :=
  hunk.debug.map Debug.decode

def relocKinds (hunk : Hunk) : List Kind :=
  hunk.relocs.map fun (kind, _) ↦ .relocs kind

def describe (hunk : Hunk) : String :=
  let segment := (hunk.segment.map fun (kind, _) ↦ (Kind.segment kind).title).getD "n/a"
  let relocs :=
    if hunk.relocs.isEmpty then "n/a" else ",".intercalate (hunk.relocKinds.map Kind.title)
  s!"[seg={segment},name={hunk.name},symbol={present hunk.symbols.isSome}," ++
    s!"ext={present hunk.externals.isSome},reloc={relocs},debug={hunk.debug.length}]"
where
  present (there : Bool) : String := if there then "yes" else "n/a"

/-- Puts a block into its place in the hunk. -/
def add (block : Block) : Action Hunk ParseError Unit := do
  let hunk ← get
  match block with
  | .plain _ (.segment kind content) =>
    if hunk.segment.isSome then
      throw .secondSegment
    set { hunk with
      segment := some (kind, content), sizeLongs := content.sizeLongs, memFlags := content.memFlags }
  | .plain _ (.name name) =>
    if hunk.name ≠ "" then
      throw .secondName
    set { hunk with name }
  | .plain _ (.symbols entries) =>
    if hunk.symbols.isSome then
      throw .secondSymbols
    set { hunk with symbols := some entries }
  | .plain _ (.externals entries) =>
    if hunk.externals.isSome then
      throw .secondExternals
    set { hunk with externals := some entries }
  | .plain _ (.debug data) =>
    Action.tell (Debug.log data)
    set { hunk with debug := hunk.debug ++ [data] }
  | .plain _ (.relocs kind groups) =>
    set { hunk with relocs := hunk.relocs ++ [(kind, groups)] }
  | _ => throw (.notInHunk block.kind block.frame.start)

/-- Collects the blocks of one hunk, which needs a segment block. -/
def gather (blocks : List Block) : Action Hunk ParseError Unit := do
  Action.forEach blocks add
  if (← get).segment.isNone then
    throw .noSegment

def ofBlocks (blocks : List Block) : Action Unit ParseError Hunk := do
  return (← Action.within empty (gather blocks)).2

/-- How far the blocks of a file are divided into hunks: the finished hunks, the latest first, the
open one and the names waiting for the next one, each the latest block first. -/
structure Division where
  closed : List (List Block)
  current : Option (List Block)
  pending : List Block

namespace Division

def close (division : Division) : Division :=
  match division.current with
  | some blocks => { division with closed := blocks.reverse :: division.closed, current := none }
  | none => division

def add (block : Block) (division : Division) : Except ParseError Division :=
  let kind := block.kind
  let start := block.frame.start
  match division.current, kind with
  | _, .ending => .ok division.close
  | _, .segment _ =>
    .ok { division.close with current := some (block :: division.pending), pending := [] }
  | some blocks, _ =>
    if kind.isPassive then
      .error (.insideHunk kind start)
    else
      .ok { division with current := some (block :: blocks) }
  | none, .name => .ok { division with pending := block :: division.pending }
  | none, _ => if kind.isPassive then .ok division else .error (.outsideHunk kind start)

/-- What there is to say when a block joins no hunk. -/
def note (block : Block) (division : Division) : Log :=
  let place := placeText block.frame.start
  match division.current, block.kind with
  | none, .ending => .single ⟨.debug, s!"HUNK_END at offset {place} without segment"⟩
  | none, kind =>
    if kind.isPassive then
      .single ⟨.debug, s!"skipping block {kind.title} at offset {place}"⟩
    else
      ∅
  | some _, _ => ∅

end Division

/-- Divides the blocks of a file into hunks. A hunk starts with a segment block and ends before the
next one, at an end mark or at the end of the file; names before the segment block belong to it. -/
def divide (blocks : List Block) : Action Unit ParseError (List (List Block)) := do
  let division ← Action.foldl (fun division block ↦ do
    Action.tell (Division.note block division)
    Action.ofExcept (Division.add block division)) ⟨[], none, []⟩ blocks
  if !division.pending.isEmpty then
    throw .lonelyName
  return division.close.closed.reverse

def orFlags (a b : Int) : Int :=
  (Bytes.low32 a ||| Bytes.low32 b : Nat)

/-- The sizes in the header are the ones to allocate; the blocks may hold less. -/
def allocate (header : Header) (hunks : List Hunk) : List Hunk :=
  let slots := header.sizes.zip (header.memFlags.zip header.memAttrs)
  hunks.zipIdx.map fun (hunk, i) ↦
    match slots[i]? with
    | some (size, memFlags, memAttr) =>
      { hunk with
        sizeLongs := max size hunk.sizeLongs, memFlags := orFlags hunk.memFlags memFlags, memAttr }
    | none => hunk

end Hunk

namespace File

def header? (file : File) : Except ParseError (Option Header) :=
  if file.isProgram then
    match file.blocks with
    | .plain _ (.header header) :: _ => .ok (some header)
    | _ => .error .noHeader
  else
    .ok none

def hunks (file : File) : Action Unit ParseError (List Hunk) := do
  if file.blocks.isEmpty then
    throw .noBlocks
  let header ← Action.ofExcept file.header?
  let parts ← Hunk.divide file.blocks
  let found ← Action.foldl (fun (found : Array Hunk) blocks ↦ do
    let hunk ← Hunk.ofBlocks blocks
    Action.debug s!"hunk #{found.size}: {hunk.describe}"
    return found.push hunk) #[] parts
  let hunks := found.toList
  if let some header := header then
    if header.sizes.length ≠ hunks.length then
      throw (.hunkCount hunks.length header.sizes.length)
  Action.info s!"found {hunks.length} hunks"
  return (header.map (Hunk.allocate · hunks)).getD hunks

end File

end Hunks
