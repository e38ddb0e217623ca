import Hunks.Text.CharRange

namespace Hunks.Text

def blankBounds : Array Nat := #[
  0x9, 0xe, 0x1c, 0x21, 0x85, 0x86, 0xa0, 0xa1, 0x1680, 0x1681, 0x2000, 0x200b, 0x2028, 0x202a,
  0x202f, 0x2030, 0x205f, 0x2060, 0x3000, 0x3001]

def isBlank (c : Char) : Bool :=
  inRanges blankBounds c

def isLineBreak (c : Char) : Bool :=
  [0xa, 0xb, 0xc, 0xd, 0x1c, 0x1d, 0x1e, 0x85, 0x2028, 0x2029].contains c.toNat

def dropBlanks (chars : List Char) : List Char :=
  chars.dropWhile isBlank

def stripChars (chars : List Char) : List Char :=
  (dropBlanks (dropBlanks chars).reverse).reverse

def strip (text : String) : String :=
  String.ofList (stripChars text.toList)

/-- Lines without their ends; a carriage return and a line feed end one line. -/
def linesFrom : (line : List Char) → List Char → List (List Char)
  | [], [] => []
  | line, [] => [line.reverse]
  | line, '\r' :: '\n' :: rest => line.reverse :: linesFrom [] rest
  | line, c :: rest =>
    if isLineBreak c then line.reverse :: linesFrom [] rest else linesFrom (c :: line) rest

def lines (text : String) : List String :=
  (linesFrom [] text.toList).map String.ofList

/-- The parts between separators. -/
def splitAt (isSeparator : Char → Bool) : (part : List Char) → List Char → List (List Char)
  | part, [] => [part.reverse]
  | part, c :: rest =>
    if isSeparator c then
      part.reverse :: splitAt isSeparator [] rest
    else
      splitAt isSeparator (c :: part) rest

end Hunks.Text
