import Hunks.Text.Latin1

namespace Hunks

abbrev Bytes := Array UInt8

/-- The sizes of the numbers that code and data hold. -/
inductive Width where
  | byte
  | short
  | long
  deriving DecidableEq, Repr

namespace Width

def bytes : Width → Nat
  | byte => 1
  | short => 2
  | long => 4

end Width

namespace Bytes

def zeros (n : Nat) : Bytes :=
  Array.replicate n 0

/-- How many numbers there are of `width` bytes. -/
def modulus : (width : Nat) → Nat
  | 0 => 1
  | width + 1 => 256 * modulus width

/-- The most significant byte comes first. -/
def ofNat : (width : Nat) → Nat → List UInt8
  | 0, _ => []
  | width + 1, n => (n / modulus width % 256).toUInt8 :: ofNat width n

def toNat (bytes : List UInt8) : Nat :=
  bytes.foldl (fun n b ↦ n * 256 + b.toNat) 0

/-- The low bytes of a number in two's complement. -/
def ofInt (width : Nat) (n : Int) : List UInt8 :=
  ofNat width (n % modulus width).toNat

def signed (width n : Nat) : Int :=
  Int.bmod n (modulus width)

def low32 (n : Int) : Nat :=
  (n % 0x100000000).toNat

def long (n : Int) : List UInt8 :=
  ofInt 4 n

def short (n : Int) : List UInt8 :=
  ofInt 2 n

def at? (data : Bytes) (start size : Nat) : Option (List UInt8) :=
  if start + size ≤ data.size then some (data.extract start (start + size)).toList else none

/-- A negative offset counts from the end. -/
def place? (data : Bytes) (offset : Int) (size : Nat) : Option Nat :=
  let start := if offset < 0 then offset + data.size else offset
  if 0 ≤ start ∧ start + size ≤ data.size then some start.toNat else none

def field? (data : Bytes) (offset : Int) (size : Nat) : Option Nat :=
  (place? data offset size).bind fun start ↦ (at? data start size).map toNat

def overwrite (data : Bytes) (start : Nat) : List UInt8 → Bytes
  | [] => data
  | b :: rest => overwrite (data.setIfInBounds start b) (start + 1) rest

def write? (data : Bytes) (offset : Int) (width : Width) (value : Int) : Option Bytes :=
  (place? data offset width.bytes).map fun start ↦
    overwrite data start (ofInt width.bytes value)

/-- Bounds outside the data are moved to its ends; a negative one counts from the end. -/
def slice (data : Bytes) (start stop : Int) : Bytes :=
  let place (i : Int) : Nat := (if i < 0 then i + data.size else i).toNat
  data.extract (place start) (place stop)

/-- Bytes up to the next multiple of four. -/
def padLong (bytes : List UInt8) : List UInt8 :=
  bytes ++ List.replicate ((4 - bytes.length % 4) % 4) 0

def matchesAt (data : Bytes) : Nat → List UInt8 → Bool
  | _, [] => true
  | i, b :: rest => data[i]? = some b && matchesAt data (i + 1) rest

def findFrom (data : Bytes) (pattern : List UInt8) : (fuel i : Nat) → Option Nat
  | 0, _ => none
  | fuel + 1, i => if matchesAt data i pattern then some i else findFrom data pattern fuel (i + 1)

/-- The first place from `start` on where the pattern occurs as a whole. -/
def find? (data : Bytes) (pattern : List UInt8) (start : Nat) : Option Nat :=
  findFrom data pattern (data.size + 1 - pattern.length - start) start

end Bytes

end Hunks
