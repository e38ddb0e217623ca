import Hunks.Action
import Hunks.Text.Number

namespace Hunks

namespace InitData

/-- Where the values of a command go: on from the last place, one of them many times, or to an
offset. -/
inductive Destination where
  | next
  | repeated
  | offset8
  | offset24
  deriving DecidableEq, Repr

namespace Destination

def ofNumber (n : Nat) : Destination :=
  match n with
  | 0 => next
  | 1 => repeated
  | 2 => offset8
  | _ => offset24

def number : Destination → Nat
  | next => 0
  | repeated => 1
  | offset8 => 2
  | offset24 => 3

end Destination

/-- A command for filling a structure, and how many bytes it takes. -/
structure Command where
  address : Int
  destination : Destination
  width : Nat
  count : Nat
  offset : Option Nat
  values : List Nat
  length : Int
  deriving DecidableEq, Repr

/-- Why there is no further command. -/
inductive Stop where
  | finished (address : Int)
  | invalid (command : Nat) (address : Int)
  deriving DecidableEq, Repr

namespace Stop

def message : Stop → String
  | finished address => s!"end of InitData at {Text.address address}"
  | invalid command address =>
    s!"invalid InitData command 0x{Text.hex 2 command} at {Text.address address}"

end Stop

variable {σ ε : Type}

/-- A number of some bytes, the most significant one first. -/
def readNumber (readByte : Int → Action σ ε Nat) (address : Int) (width : Nat) : Action σ ε Nat :=
  Action.foldl (fun value (i : Nat) ↦ do return value * 256 + (← readByte (address + i))) 0
    (List.range width)

def readOffset (readByte : Int → Action σ ε Nat) (address : Int) :
    Destination → Action σ ε (Option Nat × Int)
  | .offset8 => do return (some (← readNumber readByte address 1), address + 1)
  | .offset24 => do return (some (← readNumber readByte address 3), address + 3)
  | .next => return (none, address)
  | .repeated => return (none, address)

def width? : Nat → Option Nat
  | 0 => some 4
  | 1 => some 2
  | 2 => some 1
  | _ => none

/-- Reads the command at an address. Values of more than one byte start at even addresses, and so
does the next command. -/
def readCommand (readByte : Int → Action σ ε Nat) (stop : Stop → ε) (address : Int) :
    Action σ ε Command := do
  let command ← readByte address
  if command = 0 then
    throw (stop (.finished address))
  let destination := Destination.ofNumber (command / 64 % 4)
  let count := command % 16 + 1
  let some width := width? (command / 16 % 4) | throw (stop (.invalid command address))
  let (offset, place) ← readOffset readByte (address + 1) destination
  let place := if 1 < width then place + place % 2 else place
  let stored := if destination = .repeated then 1 else count
  let values ← Action.foldl (fun (values : Array Nat) (i : Nat) ↦ do
    return values.push (← readNumber readByte (place + i * width) width)) #[] (List.range stored)
  let after := place + stored * width
  return ⟨address, destination, width, count, offset, values.toList, after - address + after % 2⟩

end InitData

end Hunks
