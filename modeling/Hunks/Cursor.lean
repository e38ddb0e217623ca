import Hunks.Action
import Hunks.Error

namespace Hunks

/-- The input of a decoder: its bytes and the position at which they are to be taken as ended. -/
structure Window where
  data : Bytes
  stop : Int

/-- Reads from a window, starting at the position that is its state. -/
abbrev Decoder (α : Type) : Type := ReaderT Window (Action Int ParseError) α

namespace Window

def ofBytes (data : Bytes) (stop : Option Int) : Window :=
  ⟨data, stop.getD data.size⟩

def range (window : Window) (offset size : Int) : Except ParseError (List UInt8) :=
  if offset < 0 ∨ size < 0 ∨ window.data.size < offset + size then
    .error (.beyondInput size offset window.data.size)
  else
    .ok (window.data.extract offset.toNat (offset + size).toNat).toList

end Window

namespace Decoder

variable {α β : Type}

def position : Decoder Int := fun _ pos ↦ ⟨.ok pos, pos, ∅⟩

def seek (pos : Int) : Decoder Unit := fun _ _ ↦ ⟨.ok (), pos, ∅⟩

def remaining : Decoder Int := fun window pos ↦ ⟨.ok (window.stop - pos), pos, ∅⟩

def atEnd : Decoder Bool := fun window pos ↦ ⟨.ok (window.stop ≤ pos), pos, ∅⟩

def skip (size : Int) : Decoder Unit := fun window pos ↦
  if window.stop < pos + size then
    ⟨.error (.endOfInput pos size), pos, ∅⟩
  else
    ⟨.ok (), pos + size, ∅⟩

def take (size : Int) : Decoder (List UInt8) := fun window pos ↦
  if window.stop < pos + size then
    ⟨.error (.endOfInput pos size), pos, ∅⟩
  else
    match window.range pos size with
    | .ok bytes => ⟨.ok bytes, pos + size, ∅⟩
    | .error e => ⟨.error e, pos, ∅⟩

def number (size : Nat) : Decoder Nat := do
  return Bytes.toNat (← take size)

def byte : Decoder Nat := number 1

def short : Decoder Nat := number 2

def word : Decoder Nat := number 4

def signedWord : Decoder Int := do
  return Bytes.signed 4 (← word)

/-- Stays where it is, also when it fails. -/
def peekWord : Decoder Nat := fun window pos ↦
  match word window pos with
  | ⟨result, _, log⟩ => ⟨result, pos, log⟩

/-- A text that ends at its first NUL, or else at the end of its bytes. -/
def text (size : Int) : Decoder String := do
  return Text.ofLatin1 ((← take size).takeWhile (· ≠ 0))

/-- The upper byte of the count has another use in external entries. -/
def nameOfLongs (longs : Int) : Decoder String :=
  text ((longs % 0x1000000) * 4)

def name : Decoder String := do
  let longs ← word
  if longs = 0 then
    return ""
  nameOfLongs longs

@[specialize] def timesAux (x : Nat → Decoder α) (window : Window) :
    (n i : Nat) → Array α → Int → Log → Outcome Int ParseError (List α)
  | 0, _, done, pos, log => ⟨.ok done.toList, pos, log⟩
  | n + 1, i, done, pos, log =>
    match x i window pos with
    | ⟨.ok a, pos, more⟩ => timesAux x window n (i + 1) (done.push a) pos (log ++ more)
    | ⟨.error e, pos, more⟩ => ⟨.error e, pos, log ++ more⟩

/-- Runs a decoder `n` times, telling it how often it ran before. -/
@[inline] def times (n : Nat) (x : Nat → Decoder α) : Decoder (List α) :=
  fun window pos ↦ timesAux x window n 0 #[] pos ∅

@[specialize] def manyAux (x : β → Decoder (Option (α × β))) (window : Window) :
    (fuel : Nat) → β → Array α → Int → Log → Outcome Int ParseError (List α × β)
  | 0, _, _, pos, log => ⟨.error (.endOfInput pos 1), pos, log⟩
  | fuel + 1, b, done, pos, log =>
    match x b window pos with
    | ⟨.ok (some (a, b)), pos, more⟩ => manyAux x window fuel b (done.push a) pos (log ++ more)
    | ⟨.ok none, pos, more⟩ => ⟨.ok (done.toList, b), pos, log ++ more⟩
    | ⟨.error e, pos, more⟩ => ⟨.error e, pos, log ++ more⟩

/-- Repeats a decoder until it answers `none`. Each answer takes at least one byte of the window,
so a window cannot give more answers than it has bytes left. -/
@[inline] def manyWith (x : β → Decoder (Option (α × β))) (b : β) : Decoder (List α × β) :=
  fun window pos ↦ manyAux x window ((window.stop - pos).toNat + 1) b #[] pos ∅

@[inline] def many (x : Decoder (Option α)) : Decoder (List α) :=
  Prod.fst <$> manyWith (fun _ ↦ do return (← x).map (·, ())) ()

end Decoder

end Hunks
