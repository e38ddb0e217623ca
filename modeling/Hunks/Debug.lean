import Hunks.Bytes
import Hunks.Log

namespace Hunks

namespace Bytes

/-- The text from a place up to the next NUL. -/
def textAt? (data : Bytes) (start : Nat) : Option String :=
  let rest := data.extract start data.size
  (rest.findIdx? (· = 0)).map fun size ↦ Text.ofLatin1 (rest.extract 0 size).toList

end Bytes

namespace Debug

structure LineEntry where
  line : Nat
  offset : Nat
  flags : Nat
  deriving DecidableEq, Repr

structure Stab where
  type : Nat
  text : String
  other : Nat
  desc : Nat
  value : Nat
  deriving DecidableEq, Repr

/-- The content of a debug block: a line table, a stab table, or data in another format, which is
kept as it is. -/
inductive Info where
  | lines (baseOffset : Nat) (file : String) (entries : List LineEntry)
  | stabs (baseOffset : Nat) (stabs : List Stab)
  | other (tag : String) (baseOffset : Nat) (data : Bytes)
  deriving DecidableEq, Repr

/-- Why data is not a stab table. -/
inductive StabError where
  | firstStab
  | truncated
  | unterminated
  deriving DecidableEq, Repr

namespace StabError

def message : StabError → String
  | firstStab => "stabs table does not start with stab N_UNDF"
  | truncated => "stabs table is truncated"
  | unterminated => "no terminating NULL byte found in buffer"

end StabError

def numberAt (data : Bytes) (start size : Nat) : Nat :=
  Bytes.toNat (data.extract start (start + size)).toList

def lineEntry (data : Bytes) (start : Nat) : LineEntry :=
  let line := numberAt data start 4
  ⟨line % 0x1000000, numberAt data (start + 4) 4, line / 0x1000000⟩

def lineEntries (data : Bytes) (start : Nat) : List LineEntry :=
  (List.range ((data.size - start) / 8)).map fun i ↦ lineEntry data (start + 8 * i)

/-- Section offset, the tag, the file name after its count of long words, then pairs of a line,
with flags in its upper byte, and an offset. -/
def decodeLines (data : Bytes) : String × List LineEntry :=
  let start := 12 + 4 * numberAt data 8 4
  let name := (data.extract 12 start).toList.takeWhile (· ≠ 0)
  (Text.ofLatin1 name, lineEntries data start)

def stabSize : Nat := 12

/-- The number of stabs that the first one announces, itself included. -/
def stabCount (data : Bytes) : Except StabError Nat :=
  let count := numberAt data 6 2 / stabSize
  if numberAt data 4 1 ≠ 0 then
    .error .firstStab
  else if count = 0 ∨ data.size < stabSize * count then
    .error .truncated
  else
    .ok count

def decodeStab (data : Bytes) (strings i : Nat) : Except StabError Stab :=
  let start := stabSize * (i + 1)
  match Bytes.textAt? data (strings + numberAt data start 4) with
  | some text => .ok ⟨numberAt data (start + 4) 1, text, numberAt data (start + 5) 1,
      numberAt data (start + 6) 2, numberAt data (start + 8) 4⟩
  | none => .error .unterminated

def decodeStabs (data : Bytes) : Except StabError (List Stab) := do
  let count ← stabCount data
  (List.range (count - 1)).mapM (decodeStab data (stabSize * (count + 1)))

def lineTag : List UInt8 := [0x4c, 0x49, 0x4e, 0x45]

def headTag : List UInt8 := [0x48, 0x45, 0x41, 0x44]

def headSignature : List UInt8 := [0x44, 0x42, 0x47, 0x56, 0x30, 0x31, 0, 0]

def decode (data : Bytes) : Info :=
  let base := numberAt data 0 4
  let tag := (data.extract 4 8).toList
  if data.size < 12 then
    .other "" 0 data
  else if tag = lineTag then
    let (name, entries) := decodeLines data
    .lines base name entries
  else if tag = headTag ∧ (data.extract 8 16).toList = headSignature then
    .other "HEAD" base (data.extract 16 data.size)
  else
    match decodeStabs data with
    | .ok stabs => .stabs 0 stabs
    | .error _ => .other (Text.ofLatin1 tag) base (data.extract 8 data.size)

/-- What there is to say about the decoding of the data. -/
def log (data : Bytes) : Log :=
  let note (text : String) : Log := .single ⟨.debug, text⟩
  match decode data with
  | .lines _ name entries => note s!"line table for {name} with {entries.length} entries"
  | .stabs _ stabs => note s!"stab table contains {stabs.length + 1} entries"
  | .other tag _ _ =>
    if data.size < 12 ∨ tag = "HEAD" ∧ (data.extract 8 16).toList = headSignature then
      ∅
    else
      match stabCount data, decodeStabs data with
      | .ok count, .error e => note s!"stab table contains {count} entries" ++ kept e
      | _, .error e => kept e
      | _, .ok _ => ∅
where
  kept (e : StabError) : Log :=
    .single ⟨.debug, s!"debug data is neither LINE nor STABS ({e.message}), keeping it as is"⟩

end Debug

end Hunks
