namespace Hunks.Text

def padLeft (fill : Char) (width : Nat) (text : String) : String :=
  String.ofList (List.replicate (width - text.length) fill) ++ text

def padRight (width : Nat) (text : String) : String :=
  text ++ String.ofList (List.replicate (width - text.length) ' ')

def hexDigits (n : Nat) : String :=
  String.ofList (Nat.toDigits 16 n)

/-- At least `width` characters, the sign of a negative number among them. -/
def hex (width : Nat) (n : Int) : String :=
  if n < 0 then
    "-" ++ padLeft '0' (width - 1) (hexDigits n.natAbs)
  else
    padLeft '0' width (hexDigits n.natAbs)

def upperHex (width : Nat) (n : Int) : String :=
  (hex width n).map Char.toUpper

def address (n : Int) : String :=
  "0x" ++ hex 8 n

end Hunks.Text
