import Hunks.Block.Decode
import Hunks.Block.Encode

namespace Hunks

/-- The blocks of a hunk file, in order. -/
structure File where
  blocks : List Block
  kind : FileKind

namespace File

def isProgram (file : File) : Bool :=
  file.kind = .program

/-- Looks at the first long word without reading it. -/
def peekKind : Decoder FileKind := do
  if (← Decoder.remaining) < 4 then
    return .unknown
  return .ofTag (← Decoder.peekWord)

/-- Unless told how to read short relocations, goes by the first block. -/
def decode (executable : Option Bool) : Decoder File := do
  let kind ← peekKind
  let blocks ← Block.decodeAll (executable.getD (kind = .program))
  Decoder.info s!"read {blocks.length} blocks, file type is {kind.name}"
  return ⟨blocks, kind⟩

def read (data : Bytes) (offset : Int) (stop : Option Int) (executable : Option Bool) :
    Outcome Int ParseError File :=
  decode executable (.ofBytes data stop) offset

def encode (file : File) : Action Unit EncodeError Bytes :=
  Block.encodeAll #[] file.blocks

def blockTitles (file : File) : List String :=
  file.blocks.map fun block ↦ block.kind.title

def sameContent (file file' : File) : Bool :=
  file.blocks.length = file'.blocks.length &&
    (file.blocks.zip file'.blocks).all fun (block, block') ↦ block.sameContent block'

end File

end Hunks
