import Hunks.Bytes

namespace Hunks

inductive SegmentKind where
  | code
  | data
  | bss
  deriving DecidableEq, Repr

namespace SegmentKind

def name : SegmentKind → String
  | code => "CODE"
  | data => "DATA"
  | bss => "BSS"

def number : SegmentKind → Nat
  | code => 1001
  | data => 1002
  | bss => 1003

end SegmentKind

inductive RelocKind where
  | reloc32
  | reloc16
  | reloc8
  | dataReloc32
  | dataReloc16
  | dataReloc8
  | reloc32Short
  | relReloc32
  | absReloc16
  | relReloc26
  deriving DecidableEq, Repr

namespace RelocKind

def all : List RelocKind :=
  [reloc32, reloc16, reloc8, dataReloc32, dataReloc16, dataReloc8, reloc32Short, relReloc32,
    absReloc16, relReloc26]

def name : RelocKind → String
  | reloc32 => "RELOC32"
  | reloc16 => "RELOC16"
  | reloc8 => "RELOC8"
  | dataReloc32 => "DREL32"
  | dataReloc16 => "DREL16"
  | dataReloc8 => "DREL8"
  | reloc32Short => "RELOC32SHORT"
  | relReloc32 => "RELRELOC32"
  | absReloc16 => "ABSRELOC16"
  | relReloc26 => "RELRELOC26"

def number : RelocKind → Nat
  | reloc32 => 1004
  | reloc16 => 1005
  | reloc8 => 1006
  | dataReloc32 => 1015
  | dataReloc16 => 1016
  | dataReloc8 => 1017
  | reloc32Short => 1020
  | relReloc32 => 1021
  | absReloc16 => 1022
  | relReloc26 => 1260

/-- The size of the fields that a relocation of this kind patches. -/
def width : RelocKind → Width
  | reloc32 | dataReloc32 | reloc32Short | relReloc32 | relReloc26 => .long
  | reloc16 | dataReloc16 | absReloc16 => .short
  | reloc8 | dataReloc8 => .byte

def pcRelative : RelocKind → Bool
  | relReloc32 | relReloc26 => true
  | _ => false

/-- Whether counts, hunk numbers and offsets are stored as short words. -/
def isShort (kind : RelocKind) : Bool :=
  kind = reloc32Short

end RelocKind

inductive Kind where
  | unit
  | name
  | segment (kind : SegmentKind)
  | relocs (kind : RelocKind)
  | externals
  | symbols
  | debug
  | ending
  | header
  | continuation
  | overlay
  | pause
  | library
  | index
  deriving DecidableEq, Repr

namespace Kind

def all : List Kind :=
  [unit, name, segment .code, segment .data, segment .bss] ++ RelocKind.all.map relocs ++
    [externals, symbols, debug, ending, header, continuation, overlay, pause, library, index]

def title : Kind → String
  | unit => "HUNK_UNIT"
  | name => "HUNK_NAME"
  | segment kind => "HUNK_" ++ kind.name
  | relocs kind => "HUNK_" ++ kind.name
  | externals => "HUNK_EXT"
  | symbols => "HUNK_SYMBOL"
  | debug => "HUNK_DEBUG"
  | ending => "HUNK_END"
  | header => "HUNK_HEADER"
  | continuation => "HUNK_CONT"
  | overlay => "HUNK_OVERLAY"
  | pause => "HUNK_BREAK"
  | library => "HUNK_LIB"
  | index => "HUNK_INDEX"

def number : Kind → Nat
  | unit => 999
  | name => 1000
  | segment kind => kind.number
  | relocs kind => kind.number
  | externals => 1007
  | symbols => 1008
  | debug => 1009
  | ending => 1010
  | header => 1011
  | continuation => 1012
  | overlay => 1013
  | pause => 1014
  | library => 1018
  | index => 1019

def ofNumber? : Nat → Option Kind
  | 999 => some unit
  | 1000 => some name
  | 1001 => some (segment .code)
  | 1002 => some (segment .data)
  | 1003 => some (segment .bss)
  | 1004 => some (relocs .reloc32)
  | 1005 => some (relocs .reloc16)
  | 1006 => some (relocs .reloc8)
  | 1007 => some externals
  | 1008 => some symbols
  | 1009 => some debug
  | 1010 => some ending
  | 1011 => some header
  | 1012 => some continuation
  | 1013 => some overlay
  | 1014 => some pause
  | 1015 => some (relocs .dataReloc32)
  | 1016 => some (relocs .dataReloc16)
  | 1017 => some (relocs .dataReloc8)
  | 1018 => some library
  | 1019 => some index
  | 1020 => some (relocs .reloc32Short)
  | 1021 => some (relocs .relReloc32)
  | 1022 => some (relocs .absReloc16)
  | 1260 => some (relocs .relReloc26)
  | _ => none

theorem ofNumber?_number (kind : Kind) : ofNumber? kind.number = some kind := by
  cases kind with
  | segment kind => cases kind <;> rfl
  | relocs kind => cases kind <;> rfl
  | _ => rfl

/-- Kinds that stand between hunks and never in one. -/
def isPassive : Kind → Bool
  | header | unit | library | index | overlay | pause | continuation => true
  | _ => false

end Kind

/-- How the two upper bits of a tag or size word ask for memory. -/
def memoryMask : Nat := 0xc0000000

def sizeMask : Nat := 0x3fffffff

inductive ExternalKind where
  | symbol
  | definition
  | absolute
  | resident
  | ref32
  | common
  | ref16
  | ref8
  | dataRef32
  | dataRef16
  | dataRef8
  | relRef32
  | relCommon
  | absRef16
  | absRef8
  | relRef26
  deriving DecidableEq, Repr

/-- How the address of a symbol enters the value patched at a reference to it. -/
inductive RefKind where
  | absolute
  | smallData
  | pcRelative
  deriving DecidableEq, Repr

namespace RefKind

def name : RefKind → String
  | absolute => "R_ABS"
  | smallData => "R_SD"
  | pcRelative => "R_PC"

end RefKind

namespace ExternalKind

def all : List ExternalKind :=
  [symbol, definition, absolute, resident, ref32, common, ref16, ref8, dataRef32, dataRef16,
    dataRef8, relRef32, relCommon, absRef16, absRef8, relRef26]

def name : ExternalKind → String
  | symbol => "EXT_SYMB"
  | definition => "EXT_DEF"
  | absolute => "EXT_ABS"
  | resident => "EXT_RES"
  | ref32 => "EXT_REF32"
  | common => "EXT_COMMON"
  | ref16 => "EXT_REF16"
  | ref8 => "EXT_REF8"
  | dataRef32 => "EXT_DEXT32"
  | dataRef16 => "EXT_DEXT16"
  | dataRef8 => "EXT_DEXT8"
  | relRef32 => "EXT_RELREF32"
  | relCommon => "EXT_RELCOMMON"
  | absRef16 => "EXT_ABSREF16"
  | absRef8 => "EXT_ABSREF8"
  | relRef26 => "EXT_RELREF26"

def number : ExternalKind → Nat
  | symbol => 0
  | definition => 1
  | absolute => 2
  | resident => 3
  | ref32 => 129
  | common => 130
  | ref16 => 131
  | ref8 => 132
  | dataRef32 => 133
  | dataRef16 => 134
  | dataRef8 => 135
  | relRef32 => 136
  | relCommon => 137
  | absRef16 => 138
  | absRef8 => 139
  | relRef26 => 229

def ofNumber? : Nat → Option ExternalKind
  | 0 => some symbol
  | 1 => some definition
  | 2 => some absolute
  | 3 => some resident
  | 129 => some ref32
  | 130 => some common
  | 131 => some ref16
  | 132 => some ref8
  | 133 => some dataRef32
  | 134 => some dataRef16
  | 135 => some dataRef8
  | 136 => some relRef32
  | 137 => some relCommon
  | 138 => some absRef16
  | 139 => some absRef8
  | 229 => some relRef26
  | _ => none

theorem ofNumber?_number (kind : ExternalKind) : ofNumber? kind.number = some kind := by
  cases kind <;> rfl

def isDefinition : ExternalKind → Bool
  | symbol | definition | absolute | resident => true
  | _ => false

def isCommon : ExternalKind → Bool
  | common | relCommon => true
  | _ => false

def reference? : ExternalKind → Option (RefKind × Width)
  | ref32 | common => some (.absolute, .long)
  | absRef16 => some (.absolute, .short)
  | absRef8 => some (.absolute, .byte)
  | ref16 => some (.pcRelative, .short)
  | ref8 => some (.pcRelative, .byte)
  | relRef32 | relCommon => some (.pcRelative, .long)
  | dataRef32 => some (.smallData, .long)
  | dataRef16 => some (.smallData, .short)
  | dataRef8 => some (.smallData, .byte)
  | _ => none

end ExternalKind

/-- What a file holds, told by its first block. -/
inductive FileKind where
  | unknown
  | program
  | unit
  | library
  deriving DecidableEq, Repr

namespace FileKind

def name : FileKind → String
  | unknown => "TYPE_UNKNOWN"
  | program => "TYPE_LOADSEG"
  | unit => "TYPE_UNIT"
  | library => "TYPE_LIB"

def ofKind? : Kind → FileKind
  | .header => program
  | .unit => unit
  | .library => library
  | _ => unknown

/-- The kind of the file whose first long word this is. -/
def ofTag (tag : Nat) : FileKind :=
  match Kind.ofNumber? (tag &&& sizeMask) with
  | some kind => ofKind? kind
  | none => unknown

end FileKind

end Hunks
