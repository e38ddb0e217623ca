import Hunks.Bytes.Hexdump
import Hunks.Debug
import Hunks.File

namespace Hunks

namespace Debug.Stab

def typeNames : List (Nat × String) := [
  (0x00, "N_UNDF"), (0x01, "N_EXT"), (0x02, "N_ABS"), (0x04, "N_TEXT"), (0x06, "N_DATA"),
  (0x08, "N_BSS"), (0x0a, "N_INDR"), (0x0c, "N_FN_SEQ"), (0x0d, "N_WEAKU"), (0x0e, "N_WEAKA"),
  (0x0f, "N_WEAKT"), (0x10, "N_WEAKD"), (0x11, "N_WEAKB"), (0x12, "N_COMM"), (0x14, "N_SETA"),
  (0x16, "N_SETT"), (0x18, "N_SETD"), (0x1a, "N_SETB"), (0x1c, "N_SETV"), (0x1e, "N_WARNING"),
  (0x1f, "N_FN"), (0x20, "N_GSYM"), (0x22, "N_FNAME"), (0x24, "N_FUN"), (0x26, "N_STSYM"),
  (0x28, "N_LCSYM"), (0x2a, "N_MAIN"), (0x2c, "N_ROSYM"), (0x2e, "N_BNSYM"), (0x30, "N_PC"),
  (0x32, "N_NSYMS"), (0x34, "N_NOMAP"), (0x38, "N_OBJ"), (0x3c, "N_OPT"), (0x40, "N_RSYM"),
  (0x42, "N_M2C"), (0x44, "N_SLINE"), (0x46, "N_DSLINE"), (0x48, "N_BSLINE"), (0x4a, "N_DEFD"),
  (0x4c, "N_FLINE"), (0x4e, "N_ENSYM"), (0x50, "N_EHDECL"), (0x54, "N_CATCH"), (0x60, "N_SSYM"),
  (0x62, "N_ENDM"), (0x64, "N_SO"), (0x66, "N_OSO"), (0x6c, "N_ALIAS"), (0x80, "N_LSYM"),
  (0x82, "N_BINCL"), (0x84, "N_SOL"), (0xa0, "N_PSYM"), (0xa2, "N_EINCL"), (0xa4, "N_ENTRY"),
  (0xc0, "N_LBRAC"), (0xc2, "N_EXCL"), (0xc4, "N_SCOPE"), (0xd0, "N_PATCH"), (0xe0, "N_RBRAC"),
  (0xe2, "N_BCOMM"), (0xe4, "N_ECOMM"), (0xe8, "N_ECOML"), (0xea, "N_WITH"), (0xf0, "N_NBTEXT"),
  (0xf2, "N_NBDATA"), (0xf4, "N_NBBSS"), (0xf6, "N_NBSTS"), (0xf8, "N_NBLCS"), (0xfe, "N_LENG")]

def typeName (stab : Stab) : String :=
  (typeNames.lookup stab.type).getD ("0x" ++ Text.hex 2 stab.type)

end Debug.Stab

namespace Listing

def detail (text : String) : Log := .single ⟨.debug, text⟩

def note (text : String) : Log := .single ⟨.info, text⟩

def each {α : Type} (items : List α) (f : α → Log) : Log :=
  items.foldl (fun log item ↦ log ++ f item) ∅

def extent (block : Block) : Int × Int :=
  (block.frame.start.getD 0, block.frame.stop.getD 0)

/-- The type of a block and where it starts and ends. -/
def summaryLine (block : Block) : String :=
  let (start, stop) := extent block
  s!"{Text.padRight 18 block.kind.title} {column start} {column stop}"
where
  column (n : Int) : String := Text.padLeft ' ' 8 (toString n)

def summary (file : File) : List String :=
  file.blocks.map summaryLine

def header (h : Header) : Log :=
  let libraries := if h.libraries.isEmpty then "none" else ", ".intercalate h.libraries
  detail s!"resident libraries: {libraries}" ++
  detail s!"number of hunks: {h.tableSize}, first hunk: {h.firstHunk}, last hunk: {h.lastHunk}" ++
  each ((h.sizes.zip h.memFlags).zipIdx.take (h.lastHunk + 1 - h.firstHunk).toNat)
    fun ((size, flags), i) ↦
      let hunk := h.firstHunk + i
      let flags := Text.address flags
      detail s!"size (in bytes) of hunk #{hunk}: {size * 4}, memory flags {flags}"

def segment (kind : SegmentKind) (content : SegmentContent) : Log :=
  let title := (Kind.segment kind).title
  let flags := Text.address content.memFlags
  let bytes := content.sizeLongs * 4
  let data := content.data.getD #[]
  detail s!"size (in bytes) of {title} block: {bytes}, memory flags {flags}" ++
  if data.isEmpty then ∅ else detail s!"hex dump of {title} block:\n{Bytes.hexdump data}"

def relocs (group : RelocGroup) : Log :=
  detail s!"relocations referencing hunk #{group.hunk}:" ++
  each group.offsets fun offset ↦ detail s!"position = {Text.address offset}"

def external (entry : External) : Log :=
  match entry.offsets with
  | none =>
    let value := Text.address (entry.value.getD 0)
    detail s!"definition of symbol (type = {entry.kind.name}): {entry.name} = {value}"
  | some offsets => each offsets fun offset ↦
    detail s!"reference to symbol {entry.name} (type = {entry.kind.name}): {Text.address offset}"

def symbol (entry : SymbolEntry) : Log :=
  detail s!"{entry.name} = {Text.address entry.value}"

def stab (stab : Debug.Stab) : Log :=
  let other := Text.hex 1 stab.other
  let desc := Text.hex 1 stab.desc
  let value := Text.address stab.value
  detail
    s!"type = {stab.typeName}, string = {stab.text}, other = 0x{other}, desc = 0x{desc}, value = {value}"

def debug (data : Bytes) : Log :=
  detail s!"hexdump of HUNK_DEBUG block:\n{Bytes.hexdump data}" ++ Debug.log data ++
  match Debug.decode data with
  | .lines base name entries =>
    let base := Text.address base
    detail s!"format is LINE (SAS/C or VBCC), file name: {name}, section offset: {base}" ++
    each entries fun entry ↦
      detail s!"line #{entry.line} at address {Text.address entry.offset}"
  | .stabs _ stabs =>
    detail s!"format is STABS (GCC), {stabs.length} stabs:" ++ each stabs stab
  | .other tag _ rest => detail s!"unknown format '{tag}', {rest.size} bytes"

def indexUnit (unit : IndexUnit) : Log :=
  detail s!"unit at string offset {unit.nameOffset} with {unit.hunks.length} hunks"

def body : Body → Log
  | .header h => header h
  | .unit name => note s!"name: {name}"
  | .name name => note s!"name: {name}"
  | .segment kind content => segment kind content
  | .relocs _ groups => each groups relocs
  | .externals entries => each entries external
  | .symbols entries => each entries symbol
  | .debug data => debug data
  | .index index => each index.units indexUnit
  | .overlay _ | .continuation _ | .ending | .pause => ∅

def title (block : Block) : Log :=
  let (start, stop) := extent block
  note s!"{block.kind.title} block at offset {start} ({stop - start} bytes)"

mutual

def block : Block → Log
  | .plain frame content => title (.plain frame content) ++ body content
  | .library frame nested => title (.library frame nested) ++ blocks nested

def blocks : List Block → Log
  | [] => ∅
  | first :: rest => block first ++ blocks rest

end

end Listing

end Hunks
