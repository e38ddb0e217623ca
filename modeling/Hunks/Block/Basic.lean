import Hunks.Block.Kind

namespace Hunks

structure Header where
  libraries : List String
  tableSize : Int
  firstHunk : Int
  lastHunk : Int
  sizes : List Int
  memFlags : List Int
  memAttrs : List (Option Int)
  deriving DecidableEq, Repr

/-- Content of a segment block; a BSS block stores none. -/
structure SegmentContent where
  sizeLongs : Int
  memFlags : Int
  dataOffset : Option Int
  data : Option Bytes
  deriving DecidableEq, Repr

structure RelocGroup where
  hunk : Int
  offsets : List Int
  deriving DecidableEq, Repr

namespace RelocGroup

/-- The short words of a table of short relocations, its terminator among them. -/
def shortCount (groups : List RelocGroup) : Nat :=
  groups.foldr (fun group count ↦ group.offsets.length + 2 + count) 1

end RelocGroup

structure SymbolEntry where
  name : String
  value : Int
  deriving DecidableEq, Repr

/-- A definition has a value, a reference has offsets, and a common reference a size as well. -/
structure External where
  name : String
  kind : ExternalKind
  value : Option Int
  commonSize : Option Int
  offsets : Option (List Int)
  deriving DecidableEq, Repr

structure IndexDefinition where
  nameOffset : Int
  value : Int
  symbolType : Int
  deriving DecidableEq, Repr

structure IndexHunk where
  nameOffset : Int
  longs : Int
  memoryType : Int
  refs : List Int
  definitions : List IndexDefinition
  deriving DecidableEq, Repr

namespace IndexHunk

def shortCount (hunk : IndexHunk) : Nat :=
  5 + hunk.refs.length + hunk.definitions.length * 3

end IndexHunk

structure IndexUnit where
  nameOffset : Int
  firstHunkOffset : Int
  hunks : List IndexHunk
  deriving DecidableEq, Repr

namespace IndexUnit

def shortCount (unit : IndexUnit) : Nat :=
  unit.hunks.foldr (fun hunk count ↦ hunk.shortCount + count) 3

end IndexUnit

structure Index where
  strings : Bytes
  units : List IndexUnit
  deriving DecidableEq, Repr

/-- The content of a block that holds no other blocks. -/
inductive Body where
  | header (header : Header)
  | unit (name : String)
  | name (name : String)
  | segment (kind : SegmentKind) (content : SegmentContent)
  | relocs (kind : RelocKind) (groups : List RelocGroup)
  | symbols (entries : List SymbolEntry)
  | externals (entries : List External)
  | debug (data : Bytes)
  | overlay (data : Bytes)
  | continuation (data : Bytes)
  | ending
  | pause
  | index (index : Index)
  deriving DecidableEq, Repr

namespace Body

def kind : Body → Kind
  | header _ => .header
  | unit _ => .unit
  | name _ => .name
  | segment kind _ => .segment kind
  | relocs kind _ => .relocs kind
  | symbols _ => .symbols
  | externals _ => .externals
  | debug _ => .debug
  | overlay _ => .overlay
  | continuation _ => .continuation
  | ending => .ending
  | pause => .pause
  | index _ => .index

end Body

/-- Where a block was read from; a block built by hand has no place, and perhaps no tag. -/
structure Frame where
  tag : Option Int
  start : Option Int
  stop : Option Int
  deriving DecidableEq, Repr

inductive Block where
  | plain (frame : Frame) (body : Body)
  | library (frame : Frame) (blocks : List Block)

namespace Block

instance : Inhabited Block := ⟨plain ⟨none, none, none⟩ .ending⟩

def frame : Block → Frame
  | plain frame _ => frame
  | library frame _ => frame

def kind : Block → Kind
  | plain _ body => body.kind
  | library _ _ => .library

mutual

def same : Block → Block → Bool
  | plain frame body, plain frame' body' => frame = frame' && body = body'
  | library frame blocks, library frame' blocks' => frame = frame' && sameAll blocks blocks'
  | _, _ => false

def sameAll : List Block → List Block → Bool
  | [], [] => true
  | block :: blocks, block' :: blocks' => same block block' && sameAll blocks blocks'
  | _, _ => false

end

instance : BEq Block := ⟨same⟩

/-- Equal in content; the places of the blocks themselves do not count. -/
def sameContent : Block → Block → Bool
  | plain _ body, plain _ body' => body = body'
  | library _ blocks, library _ blocks' => sameAll blocks blocks'
  | _, _ => false

end Block

end Hunks
