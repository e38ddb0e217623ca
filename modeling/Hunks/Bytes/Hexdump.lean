import Hunks.Bytes
import Hunks.Text.Number

namespace Hunks.Bytes

def rowWidth : Nat := 16

def printable (b : UInt8) : Char :=
  if 0x20 ≤ b.toNat ∧ b.toNat ≤ 0x7e then Char.ofNat b.toNat else '.'

def hexRow (pos : Nat) (row : List UInt8) : String :=
  let cells := String.join (row.map fun b ↦ Text.hex 2 b.toNat ++ " ")
  let text := String.ofList (row.map printable)
  Text.hex 4 pos ++ "  " ++ Text.padRight (3 * rowWidth) cells ++ "\t" ++ text ++ "\n"

def hexRows (data : Bytes) (rows : Nat) : List String :=
  (List.range rows).map fun i ↦
    hexRow (rowWidth * i) (data.extract (rowWidth * i) (rowWidth * (i + 1))).toList

def hexdump (data : Bytes) : String :=
  String.join (hexRows data ((data.size + rowWidth - 1) / rowWidth))

end Hunks.Bytes
