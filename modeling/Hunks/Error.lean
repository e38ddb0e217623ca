import Hunks.Block.Kind
import Hunks.Text.Number

namespace Hunks

inductive ErrorKind where
  | unexpectedEnd
  | unknownBlock
  | invalidBlock
  | duplicateSymbols
  | duplicateExternals
  | relocOutOfBounds
  | unknownTarget
  | unresolvedExternal
  | descriptorMissing
  | hostFailure
  deriving DecidableEq, Repr

namespace ErrorKind

def name : ErrorKind → String
  | unexpectedEnd => "UNEXPECTED_EOF"
  | unknownBlock => "UNKNOWN_BLOCK"
  | invalidBlock => "INVALID_HUNK_BLOCK"
  | duplicateSymbols => "DUPLICATE_SYMBOLS_IN_HUNK"
  | duplicateExternals => "DUPLICATE_EXT"
  | relocOutOfBounds => "RELOC_OUT_OF_BOUNDS"
  | unknownTarget => "UNKNOWN_TARGET_SEGMENT"
  | unresolvedExternal => "UNRESOLVED_EXTERNAL"
  | descriptorMissing => "DESCRIPTOR_MISSING"
  | hostFailure => "HOST_FAILURE"

end ErrorKind

/-- A condition that is recorded without stopping the work. -/
structure Diagnostic where
  kind : ErrorKind
  subject : String
  address : Int
  deriving DecidableEq, Repr

def placeText : Option Int → String
  | some place => toString place
  | none => "None"

/-- Why bytes are not a hunk file, or blocks not the hunks of one. -/
inductive ParseError where
  | endOfInput (pos wanted : Int)
  | beyondInput (size offset : Int) (length : Nat)
  | shortTag (pos : Int)
  | unknownBlock (number tag : Nat) (pos : Int)
  | hunkRange (first last : Int)
  | externalKind (number : Nat) (name : String)
  | noBlocks
  | noHeader
  | hunkCount (hunks entries : Nat)
  | noSegment
  | secondSegment
  | secondName
  | secondSymbols
  | secondExternals
  | notInHunk (kind : Kind) (start : Option Int)
  | insideHunk (kind : Kind) (start : Option Int)
  | outsideHunk (kind : Kind) (start : Option Int)
  | lonelyName
  | unknownInput
  deriving DecidableEq, Repr

namespace ParseError

def kind : ParseError → ErrorKind
  | endOfInput .. | beyondInput .. | shortTag .. => .unexpectedEnd
  | unknownBlock .. | unknownInput => .unknownBlock
  | secondSymbols => .duplicateSymbols
  | secondExternals => .duplicateExternals
  | _ => .invalidBlock

def message : ParseError → String
  | endOfInput pos wanted => s!"unexpected end of input at offset {pos} (wanted {wanted} bytes)"
  | beyondInput size offset length =>
    s!"read of {size} bytes at offset {offset} exceeds input of {length} bytes"
  | shortTag pos => s!"block tag at offset {pos} too short"
  | unknownBlock number tag pos =>
    s!"block type {number} (tag {Text.address tag}) at offset {pos} not known"
  | hunkRange first last => s!"HUNK_HEADER with invalid hunk range {first}..{last}"
  | externalKind number name => s!"symbol type {number} of symbol {name} not supported"
  | noBlocks => "no hunk blocks found"
  | noHeader => "executable does not start with HUNK_HEADER"
  | hunkCount hunks entries => s!"can't match {hunks} hunks to {entries} entries in header"
  | noSegment => "no segment block in hunk"
  | secondSegment => "more than one segment block in hunk"
  | secondName => "duplicate name in hunk"
  | secondSymbols => "duplicate symbols in hunk"
  | secondExternals => "duplicate EXT block in hunk"
  | notInHunk kind start => s!"invalid hunk block {kind.title} at offset {placeText start}"
  | insideHunk kind start =>
    s!"invalid hunk block {kind.title} inside hunk at offset {placeText start}"
  | outsideHunk kind start => s!"block {kind.title} at offset {placeText start} outside of a hunk"
  | lonelyName => "HUNK_NAME without following segment block"
  | unknownInput => "input is neither a Hunk file nor a Kickstart image"

end ParseError

end Hunks
