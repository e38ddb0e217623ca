import Hunks.Action
import Hunks.Block.Basic

namespace Hunks

/-- Why a block built by hand has no written form. -/
inductive EncodeError where
  | missing
  | numberRange
  | notLatin1
  deriving DecidableEq, Repr

namespace Encode

def latin1 (text : String) : Except EncodeError (List UInt8) :=
  match Text.latin1? text with
  | some bytes => .ok bytes
  | none => .error .notLatin1

def present {α : Type} : Option α → Except EncodeError α
  | some a => .ok a
  | none => .error .missing

/-- A short word that has to fit. -/
def exactShort (n : Int) : Except EncodeError (List UInt8) :=
  if 0 ≤ n ∧ n < 0x10000 then .ok (Bytes.short n) else .error .numberRange

def paddedName (text : String) : Except EncodeError (List UInt8) :=
  return Bytes.padLong (← latin1 text)

def name (text : String) : Except EncodeError (List UInt8) := do
  let raw ← paddedName text
  return Bytes.long (raw.length / 4) ++ raw

def concat {α : Type} (f : α → Except EncodeError (List UInt8)) (items : List α) :
    Except EncodeError (List UInt8) :=
  return (← items.mapM f).flatten

def longBytes (data : List UInt8) : List UInt8 :=
  let data := Bytes.padLong data
  Bytes.long (data.length / 4) ++ data

end Encode

open Encode

namespace Header

def encodeSlot (size memFlags : Int) (memAttr : Option Int) : List UInt8 :=
  Bytes.long (Bytes.low32 size ||| Bytes.low32 memFlags) ++
    if Bytes.low32 memFlags &&& memoryMask = memoryMask then Bytes.long (memAttr.getD 0) else []

def encodeSlots : List Int → List Int → List (Option Int) → List UInt8
  | size :: sizes, flags :: memFlags, attr :: memAttrs =>
    encodeSlot size flags attr ++ encodeSlots sizes memFlags memAttrs
  | _, _, _ => []

def encode (header : Header) : Except EncodeError (List UInt8) := do
  let libraries ← concat name header.libraries
  return libraries ++ Bytes.long 0 ++ Bytes.long header.tableSize ++ Bytes.long header.firstHunk ++
    Bytes.long header.lastHunk ++ encodeSlots header.sizes header.memFlags header.memAttrs

end Header

namespace SegmentContent

/-- Memory bits that the tag has already are not repeated in the size. -/
def encode (content : SegmentContent) (kind : SegmentKind) (tag : Option Int) :
    Except EncodeError (List UInt8) := do
  let tag ← present tag
  let flags := Bytes.low32 content.memFlags &&& Bytes.low32 (-1 - tag) &&& memoryMask
  let size := Bytes.long (Bytes.low32 content.sizeLongs ||| flags)
  if kind = .bss then
    return size
  return size ++ (← present content.data).toList

end SegmentContent

namespace RelocGroup

def encode (number : Int → List UInt8) (group : RelocGroup) : List UInt8 :=
  number group.offsets.length ++ number group.hunk ++ (group.offsets.map number).flatten

def encodeAll (kind : RelocKind) (groups : List RelocGroup) : List UInt8 :=
  if kind.isShort then
    (groups.map (encode Bytes.short)).flatten ++ Bytes.short 0 ++
      if shortCount groups % 2 = 1 then Bytes.short 0 else []
  else
    (groups.map (encode Bytes.long)).flatten ++ Bytes.long 0

end RelocGroup

namespace SymbolEntry

def encode (entry : SymbolEntry) : Except EncodeError (List UInt8) := do
  return (← Encode.name entry.name) ++ Bytes.long entry.value

end SymbolEntry

namespace External

def encode (entry : External) : Except EncodeError (List UInt8) := do
  let raw ← paddedName entry.name
  let head := Bytes.long (Bytes.low32 (entry.kind.number * 0x1000000) |||
    Bytes.low32 (raw.length / 4 : Nat))
  let size ← if entry.kind.isCommon then Bytes.long <$> present entry.commonSize else pure []
  if entry.kind.isDefinition then
    return head ++ raw ++ size ++ Bytes.long (← present entry.value)
  let offsets ← present entry.offsets
  return head ++ raw ++ size ++ Bytes.long offsets.length ++ (offsets.map Bytes.long).flatten

end External

namespace IndexDefinition

def encode (definition : IndexDefinition) : Except EncodeError (List UInt8) :=
  concat exactShort [definition.nameOffset, definition.value, definition.symbolType]

end IndexDefinition

namespace IndexHunk

def encode (hunk : IndexHunk) : Except EncodeError (List UInt8) := do
  let head ← concat exactShort [hunk.nameOffset, hunk.longs, hunk.memoryType, hunk.refs.length]
  let refs ← concat exactShort hunk.refs
  let count ← exactShort hunk.definitions.length
  return head ++ refs ++ count ++ (← concat IndexDefinition.encode hunk.definitions)

end IndexHunk

namespace IndexUnit

def encode (unit : IndexUnit) : Except EncodeError (List UInt8) := do
  let head ← concat exactShort [unit.nameOffset, unit.firstHunkOffset, unit.hunks.length]
  return head ++ (← concat IndexHunk.encode unit.hunks)

end IndexUnit

namespace Index

def encode (index : Index) : Except EncodeError (List UInt8) := do
  let size ← exactShort index.strings.size
  let padding := if index.strings.size % 2 = 1 then [0] else []
  let units ← concat IndexUnit.encode index.units
  return longBytes (size ++ index.strings.toList ++ padding ++ units)

end Index

namespace Body

/-- What follows the tag of a block. -/
def encode (tag : Option Int) : Body → Except EncodeError (List UInt8)
  | header h => h.encode
  | unit text => Encode.name text
  | name text => Encode.name text
  | segment kind content => content.encode kind tag
  | relocs kind groups => .ok (RelocGroup.encodeAll kind groups)
  | symbols entries => return (← concat SymbolEntry.encode entries) ++ Bytes.long 0
  | externals entries => return (← concat External.encode entries) ++ Bytes.long 0
  | debug data => .ok (longBytes data.toList)
  | overlay data => .ok (longBytes data.toList)
  | continuation data => .ok (longBytes data.toList)
  | ending => .ok []
  | pause => .ok []
  | index i => i.encode

end Body

namespace Block

def tagBytes (block : Block) : List UInt8 :=
  Bytes.long (block.frame.tag.getD block.kind.number)

mutual

def encode (offset : Nat) : Block → Action Unit EncodeError (List UInt8)
  | plain frame body => do
    Action.debug s!"writing block {body.kind.title} at offset {offset}"
    return tagBytes (plain frame body) ++ (← Action.ofExcept (body.encode frame.tag))
  | library frame blocks => do
    Action.debug s!"writing block {Kind.library.title} at offset {offset}"
    let nested ← encodeAll #[] blocks
    return tagBytes (library frame blocks) ++ Bytes.long (nested.size / 4 : Nat) ++ nested.toList

def encodeAll (written : Bytes) : List Block → Action Unit EncodeError Bytes
  | [] => pure written
  | block :: blocks => do
    let bytes ← encode written.size block
    encodeAll (written ++ bytes) blocks

end

end Block

end Hunks
