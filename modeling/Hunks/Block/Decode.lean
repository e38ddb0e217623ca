import Hunks.Block.Basic
import Hunks.Cursor

namespace Hunks

namespace Decoder

def debug (text : String) : Decoder Unit := fun _ ↦ Action.debug text

def info (text : String) : Decoder Unit := fun _ ↦ Action.info text

def warn (text : String) : Decoder Unit := fun _ ↦ Action.warn text

def fail {α : Type} (e : ParseError) : Decoder α := throw e

def words (n : Nat) : Decoder (List Int) := times n fun _ ↦ do return (← word)

def shorts (n : Nat) : Decoder (List Int) := times n fun _ ↦ do return (← short)

def longBytes (longs : Nat) : Decoder Bytes := do
  return (← take (longs * 4)).toArray

end Decoder

open Decoder

namespace Header

structure Slot where
  size : Nat
  memFlags : Nat
  memAttr : Option Nat

/-- With both memory bits set, a long word of memory attributes follows the size. -/
def decodeSlot (hunk : Nat) : Decoder Slot := do
  let size ← word
  let memAttr ← if size &&& memoryMask = memoryMask then some <$> word else pure none
  let longs := size &&& sizeMask
  debug s!"size (in bytes) of hunk #{hunk}: {longs * 4}"
  return ⟨longs, size &&& memoryMask, memAttr⟩

def decode : Decoder Header := do
  let libraries ← many do
    let library ← name
    return if library.isEmpty then none else some library
  let tableSize ← word
  let firstHunk ← word
  let lastHunk ← word
  if lastHunk < firstHunk then
    fail (.hunkRange firstHunk lastHunk)
  debug s!"long words reserved for resident libraries: {libraries.length}"
  debug s!"number of hunks: {tableSize}, first hunk: {firstHunk}, last hunk: {lastHunk}"
  let slots ← times (lastHunk + 1 - firstHunk) fun i ↦ decodeSlot (firstHunk + i)
  return {
    libraries, tableSize, firstHunk, lastHunk
    sizes := slots.map fun slot ↦ slot.size
    memFlags := slots.map fun slot ↦ slot.memFlags
    memAttrs := slots.map fun slot ↦ slot.memAttr.map Int.ofNat }

end Header

namespace SegmentContent

def decode (kind : SegmentKind) (tag : Nat) : Decoder SegmentContent := do
  let size ← word
  let longs := size &&& sizeMask
  let memFlags := (size ||| tag) &&& memoryMask
  debug s!"size (in bytes) of {(Kind.segment kind).title} block: {longs * 4}"
  if kind = .bss then
    return ⟨longs, memFlags, none, none⟩
  let start ← position
  let data ← longBytes longs
  return ⟨longs, memFlags, some start, some data⟩

end SegmentContent

namespace RelocGroup

def decodeLong? : Decoder (Option RelocGroup) := do
  let count ← word
  if count = 0 then
    return none
  let hunk ← word
  let offsets ← words count
  debug s!"{count} relocations referencing hunk #{hunk}"
  return some ⟨hunk, offsets⟩

def decodeShort? : Decoder (Option RelocGroup) := do
  let count ← short
  if count = 0 then
    return none
  let hunk ← short
  let offsets ← shorts count
  debug s!"{count} short relocations referencing hunk #{hunk}"
  return some ⟨hunk, offsets⟩

def decodeAll (kind : RelocKind) : Decoder (List RelocGroup) := do
  if kind.isShort then
    let groups ← many decodeShort?
    if shortCount groups % 2 = 1 then
      let _ ← short
    return groups
  many decodeLong?

end RelocGroup

namespace SymbolEntry

def decode? : Decoder (Option SymbolEntry) := do
  let symbol ← Decoder.name
  if symbol.isEmpty then
    return none
  let value ← word
  debug s!"symbol {symbol} = {Text.address value}"
  return some ⟨symbol, value⟩

end SymbolEntry

namespace External

def decode? : Decoder (Option External) := do
  let head ← word
  if head = 0 then
    return none
  let number := head / 0x1000000
  let symbol ← nameOfLongs head
  let some kind := ExternalKind.ofNumber? number | fail (.externalKind number symbol)
  let commonSize ← if kind.isCommon then some <$> word else pure none
  let commonSize := commonSize.map Int.ofNat
  if kind.isDefinition then
    let value ← word
    debug s!"definition of symbol (type = {kind.name}): {symbol} = {Text.address value}"
    return some ⟨symbol, kind, some value, commonSize, none⟩
  let count ← word
  let offsets ← words count
  debug s!"{count} references to symbol {symbol} (type = {kind.name})"
  return some ⟨symbol, kind, none, commonSize, some offsets⟩

end External

namespace IndexDefinition

def decode : Decoder IndexDefinition := do
  return ⟨← short, ← short, ← short⟩

end IndexDefinition

namespace IndexHunk

def decode : Decoder IndexHunk := do
  let nameOffset ← short
  let longs ← short
  let memoryType ← short
  let refs ← shorts (← short)
  let definitions ← times (← short) fun _ ↦ IndexDefinition.decode
  return ⟨nameOffset, longs, memoryType, refs, definitions⟩

end IndexHunk

namespace IndexUnit

def decode : Decoder IndexUnit := do
  let nameOffset ← short
  let firstHunkOffset ← short
  let hunks ← times (← short) fun _ ↦ IndexHunk.decode
  return ⟨nameOffset, firstHunkOffset, hunks⟩

end IndexUnit

namespace Index

/-- Reads units while more than one short word of the declared size is left; a single one is
padding. -/
def decodeUnits (shortsLeft : Int) : Decoder (List IndexUnit) := do
  let (units, left) ← manyWith (fun (left : Int) ↦ do
    if left ≤ 1 then
      return none
    let unit ← IndexUnit.decode
    return some (unit, left - unit.shortCount)) shortsLeft
  if left = 1 then
    let _ ← short
  return units

def decode : Decoder Index := do
  let longs ← word
  let size ← short
  let strings ← take size
  if size % 2 = 1 then
    let _ ← take 1
  let units ← decodeUnits (2 * longs - ((size + 1) / 2 + 1))
  return ⟨strings.toArray, units⟩

end Index

namespace Body

def decodeName (what : String) : Decoder String := do
  let title ← Decoder.name
  Decoder.debug s!"{what}: {title}"
  return title

def decodeDebug : Decoder Bytes := do
  let longs ← word
  Decoder.debug s!"size (in bytes) of debug block: {longs * 4}"
  longBytes longs

def decodeBytes : Decoder Bytes := do
  longBytes (← word)

end Body

namespace Block

/-- The kind that a tag stands for. Programs use the number of the 32 bit data relocations for the
short relocations. -/
def kindOfTag? (executable : Bool) (tag : Nat) : Option Kind :=
  match Kind.ofNumber? (tag &&& sizeMask) with
  | some (.relocs .dataReloc32) => some (.relocs (if executable then .reloc32Short else .dataReloc32))
  | kind => kind

/-- The rest of a block after its tag; `nested` reads the blocks up to a position. -/
def decodeContent (nested : Int → Decoder (List Block)) (tag : Nat) (start : Int) :
    Kind → Decoder Block
  | .header => do plain (← Header.decode) fun h ↦ .header h
  | .unit => do plain (← Body.decodeName "unit name") fun s ↦ .unit s
  | .name => do plain (← Body.decodeName "hunk name") fun s ↦ .name s
  | .segment kind => do plain (← SegmentContent.decode kind tag) fun c ↦ .segment kind c
  | .relocs kind => do plain (← RelocGroup.decodeAll kind) fun g ↦ .relocs kind g
  | .symbols => do plain (← many SymbolEntry.decode?) fun e ↦ .symbols e
  | .externals => do plain (← many External.decode?) fun e ↦ .externals e
  | .debug => do plain (← Body.decodeDebug) fun b ↦ .debug b
  | .overlay => do plain (← Body.decodeBytes) fun b ↦ .overlay b
  | .continuation => do plain (← Body.decodeBytes) fun b ↦ .continuation b
  | .ending => plain () fun _ ↦ .ending
  | .pause => plain () fun _ ↦ .pause
  | .index => do plain (← Index.decode) fun i ↦ .index i
  | .library => do
    let longs ← word
    let stop := (← position) + longs * 4
    info s!"reading HUNK_LIB block with {longs * 4} bytes"
    let blocks ← nested stop
    let excess := (← position) - stop
    if excess ≠ 0 then
      warn s!"blocks in HUNK_LIB overrun its size by {excess} bytes"
    return .library ⟨some tag, some start, some (← position)⟩ blocks
where
  plain {α : Type} (content : α) (body : α → Body) : Decoder Block := do
    return .plain ⟨some tag, some start, some (← position)⟩ (body content)

def decodeWith (nested : Int → Decoder (List Block)) (executable : Bool) : Decoder Block := do
  let start ← position
  let tag ← word
  let number := tag &&& sizeMask
  let some kind := kindOfTag? executable tag | fail (.unknownBlock number tag start)
  if kind.number ≠ number then
    debug s!"treating HUNK_DREL32 at offset {start} as HUNK_RELOC32SHORT"
  debug s!"reading block {kind.title} ({kind.number}) at offset {start}"
  decodeContent nested tag start kind

def untilStop (stop : Int) (block : Decoder Block) : Decoder (List Block) :=
  many do
    if stop ≤ (← position) then
      return none
    return some (← block)

/-- The blocks up to a position, libraries nested at most `depth` deep. -/
def decodeNested (executable : Bool) : (depth : Nat) → (stop : Int) → Decoder (List Block)
  | 0, _ => do fail (.endOfInput (← position) 4)
  | depth + 1, stop => untilStop stop (decodeWith (decodeNested executable depth) executable)

/-- A library takes eight bytes besides its blocks, which bounds the depth of the nesting. -/
def nested (executable : Bool) (stop : Int) : Decoder (List Block) := do
  decodeNested executable ((← remaining).toNat / 8 + 1) stop

def decodeAll (executable : Bool) : Decoder (List Block) :=
  many do
    if ← atEnd then
      return none
    if (← remaining) < 4 then
      fail (.shortTag (← position))
    return some (← decodeWith (nested executable) executable)

end Block

end Hunks
