import Mathlib
import Hunks.Block.Decode
import Hunks.Block.Encode

namespace Hunks

/-- A number that a field of this many bytes can hold. -/
def Fits (width : Nat) (n : Int) : Prop :=
  0 ≤ n ∧ n < 2 ^ (8 * width)

/-- Any of the two memory bits and no other one. -/
def IsMemory (flags : Int) : Prop :=
  ∃ bits : Nat, flags = bits ∧ bits < 2 ^ 32 ∧ bits &&& memoryMask = bits

namespace Text

/-- A text that ends at a NUL or at the end of its long words, of which it has less than `2 ^ 24`. -/
def IsName (text : String) : Prop :=
  (∀ c ∈ text.toList, c.toNat < 256 ∧ c.toNat ≠ 0) ∧ (text.length + 3) / 4 < 2 ^ 24

end Text

namespace Header

/-- Attributes stand exactly where both memory bits are set. -/
structure Slot.InRange (slot : Slot) : Prop where
  size : slot.size < 2 ^ 30
  flags : IsMemory slot.memFlags
  attr : slot.memAttr.isSome ↔ slot.memFlags = memoryMask
  attr_lt : ∀ attr ∈ slot.memAttr, attr < 2 ^ 32

/-- The three lists are the columns of one table, with a row for each hunk of the range. -/
structure InRange (header : Header) : Prop where
  libraries : ∀ name ∈ header.libraries, Text.IsName name ∧ name ≠ ""
  tableSize : Fits 4 header.tableSize
  firstHunk : Fits 4 header.firstHunk
  lastHunk : Fits 4 header.lastHunk
  ordered : header.firstHunk ≤ header.lastHunk
  slots : ∃ slots : List Slot, (slots.length : Int) = header.lastHunk - header.firstHunk + 1 ∧
    (∀ slot ∈ slots, slot.InRange) ∧ header.sizes = slots.map (fun slot ↦ (slot.size : Int)) ∧
    header.memFlags = slots.map (fun slot ↦ (slot.memFlags : Int)) ∧
    header.memAttrs = slots.map (fun slot ↦ slot.memAttr.map Int.ofNat)

end Header

namespace SegmentContent

structure InRange (content : SegmentContent) (kind : SegmentKind) (tag : Nat) : Prop where
  size : 0 ≤ content.sizeLongs ∧ content.sizeLongs < 2 ^ 30
  flags : IsMemory content.memFlags
  /-- The memory bits of the tag are among the flags. -/
  tagged : tag &&& memoryMask &&& content.memFlags.toNat = tag &&& memoryMask
  bss : kind = .bss → content.data = none
  stored : kind ≠ .bss → ∃ data, content.data = some data ∧ (data.size : Int) = 4 * content.sizeLongs

end SegmentContent

namespace RelocGroup

structure InRange (width : Nat) (group : RelocGroup) : Prop where
  nonempty : group.offsets ≠ []
  count : Fits width group.offsets.length
  hunk : Fits width group.hunk
  offsets : ∀ offset ∈ group.offsets, Fits width offset

end RelocGroup

namespace RelocKind

/-- The bytes of a number in a block of relocations. -/
def numberBytes (kind : RelocKind) : Nat :=
  if kind.isShort then 2 else 4

end RelocKind

namespace SymbolEntry

structure InRange (entry : SymbolEntry) : Prop where
  name : Text.IsName entry.name
  named : entry.name ≠ ""
  value : Fits 4 entry.value

end SymbolEntry

namespace External

structure InRange (entry : External) : Prop where
  name : Text.IsName entry.name
  common : entry.kind.isCommon → ∃ size, entry.commonSize = some size ∧ Fits 4 size
  plain : ¬ entry.kind.isCommon → entry.commonSize = none
  definition : entry.kind.isDefinition →
    (∃ value, entry.value = some value ∧ Fits 4 value) ∧ entry.offsets = none
  reference : ¬ entry.kind.isDefinition → entry.value = none ∧
    ∃ offsets, entry.offsets = some offsets ∧ Fits 4 offsets.length ∧ ∀ o ∈ offsets, Fits 4 o

end External

namespace IndexDefinition

structure InRange (definition : IndexDefinition) : Prop where
  nameOffset : Fits 2 definition.nameOffset
  value : Fits 2 definition.value
  symbolType : Fits 2 definition.symbolType

end IndexDefinition

namespace IndexHunk

structure InRange (hunk : IndexHunk) : Prop where
  nameOffset : Fits 2 hunk.nameOffset
  longs : Fits 2 hunk.longs
  memoryType : Fits 2 hunk.memoryType
  ref_count : Fits 2 hunk.refs.length
  refs : ∀ ref ∈ hunk.refs, Fits 2 ref
  count : Fits 2 hunk.definitions.length
  definitions : ∀ definition ∈ hunk.definitions, definition.InRange

end IndexHunk

namespace IndexUnit

structure InRange (unit : IndexUnit) : Prop where
  nameOffset : Fits 2 unit.nameOffset
  firstHunkOffset : Fits 2 unit.firstHunkOffset
  count : Fits 2 unit.hunks.length
  hunks : ∀ hunk ∈ unit.hunks, hunk.InRange

end IndexUnit

namespace Index

structure InRange (index : Index) : Prop where
  strings : Fits 2 index.strings.size
  units : ∀ unit ∈ index.units, unit.InRange

/-- The short words of the string table with its size, and of the units. -/
def shortCount (index : Index) : Nat :=
  index.units.foldr (fun unit count ↦ unit.shortCount + count) (1 + (index.strings.size + 1) / 2)

end Index

namespace Body

/-- Long words as they come, with a count in front of them. -/
def IsLongs (data : Bytes) : Prop :=
  data.size % 4 = 0 ∧ data.size / 4 < 2 ^ 32

/-- Every number fits its field, and nothing stands where the format has no place for it. -/
def InRange (tag : Nat) : Body → Prop
  | header h => h.InRange
  | unit text => Text.IsName text
  | name text => Text.IsName text
  | segment kind content => content.InRange kind tag
  | relocs kind groups => ∀ group ∈ groups, group.InRange kind.numberBytes
  | symbols entries => ∀ entry ∈ entries, entry.InRange
  | externals entries => ∀ entry ∈ entries, entry.InRange
  | debug data => IsLongs data
  | overlay data => IsLongs data
  | continuation data => IsLongs data
  | ending => True
  | pause => True
  | index i => i.InRange

/-- What a decoded body may lack: a symbol without a name reads as the end of its table, and the
content of an index may be longer than its count of long words can tell. -/
def Writable : Body → Prop
  | externals entries => ∀ entry ∈ entries, entry.kind = .symbol → entry.name ≠ ""
  | index i => (i.shortCount + 1) / 2 < 2 ^ 32
  | _ => True

end Body

namespace Block

/-- A tag is the number of a kind with any of the two memory bits. Programs have no 32 bit data
relocations; their number stands for short relocations there. -/
def IsTag (executable : Bool) (kind : Kind) (tag : Nat) : Prop :=
  tag < 2 ^ 32 ∧ (tag % 2 ^ 30 = kind.number ∧ ¬ (executable ∧ kind = .relocs .dataReloc32) ∨
    executable ∧ kind = .relocs .reloc32Short ∧ tag % 2 ^ 30 = RelocKind.dataReloc32.number)

mutual

def InRange (executable : Bool) : Block → Prop
  | plain frame body =>
    ∃ tag : Nat, frame.tag = some (tag : Int) ∧ IsTag executable body.kind tag ∧ body.InRange tag
  | library frame blocks =>
    (∃ tag : Nat, frame.tag = some (tag : Int) ∧ IsTag executable .library tag) ∧
      AllInRange executable blocks

def AllInRange (executable : Bool) : List Block → Prop
  | [] => True
  | block :: blocks => block.InRange executable ∧ AllInRange executable blocks

end

/-- The bytes that are written for a block. -/
def written (block : Block) : List UInt8 :=
  match (encode 0 block ()).result with
  | .ok bytes => bytes
  | .error _ => []

def allWritten (blocks : List Block) : List UInt8 :=
  blocks.flatMap written

mutual

def Writable : Block → Prop
  | plain _ body => body.Writable
  | library _ blocks => AllWritable blocks ∧ (allWritten blocks).length / 4 < 2 ^ 32

def AllWritable : List Block → Prop
  | [] => True
  | block :: blocks => block.Writable ∧ AllWritable blocks

end

/-- Blocks that have a written form from which they can be read back. -/
def WellFormed (executable : Bool) (blocks : List Block) : Prop :=
  AllInRange executable blocks ∧ AllWritable blocks

end Block

end Hunks
