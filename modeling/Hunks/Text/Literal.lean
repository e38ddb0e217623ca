import Hunks.Text.Blank
import Hunks.Text.DecimalDigit

namespace Hunks.Text

/-- The most digits that a decimal number may have. -/
def maxDigits : Nat := 4300

/-- Other scripts' blanks and digits count as the plain ones. -/
def plainChar (c : Char) : Char :=
  if c.toNat < 127 then
    c
  else if isBlank c then
    ' '
  else
    match digitValue? c with
    | some value => Char.ofNat (0x30 + value)
    | none => '?'

def isPlainBlank (c : Char) : Bool :=
  c = ' ' ∨ 0x9 ≤ c.toNat ∧ c.toNat ≤ 0xd

def baseDigit? (base : Nat) (c : Char) : Option Nat :=
  let c := c.toLower
  let value :=
    if c.isDigit then c.toNat - 0x30
    else if c.isLower then c.toNat - 0x61 + 10
    else base
  if value < base then some value else none

/-- Digits, between any two of which one underscore may stand. -/
def digits? (base : Nat) : List Char → Option (List Nat)
  | [] => none
  | [c] => (baseDigit? base c).map fun d ↦ [d]
  | c :: '_' :: rest => return (← baseDigit? base c) :: (← digits? base rest)
  | c :: rest => return (← baseDigit? base c) :: (← digits? base rest)

def natOfDigits? (base : Nat) (chars : List Char) : Option Nat := do
  let digits ← digits? base chars
  if base = 10 ∧ maxDigits < digits.length then
    none
  else
    some (digits.foldl (fun n d ↦ n * base + d) 0)

def trimmed (text : String) : List Char :=
  let chars := text.toList.map plainChar
  ((chars.dropWhile isPlainBlank).reverse.dropWhile isPlainBlank).reverse

def signed? (unsigned : List Char → Option Nat) : List Char → Option Int
  | '-' :: rest => (unsigned rest).map fun n ↦ -(n : Int)
  | '+' :: rest => (unsigned rest).map fun n ↦ (n : Int)
  | rest => (unsigned rest).map fun n ↦ (n : Int)

def decimal? (text : String) : Option Int :=
  signed? (natOfDigits? 10) (trimmed text)

def afterUnderscore : List Char → List Char
  | '_' :: rest => rest
  | rest => rest

/-- A number whose base is told by its first characters; a decimal one has no leading zeros. -/
def natLiteral? : List Char → Option Nat
  | '0' :: c :: rest =>
    if c.toLower = 'x' then
      natOfDigits? 16 (afterUnderscore rest)
    else if c.toLower = 'o' then
      natOfDigits? 8 (afterUnderscore rest)
    else if c.toLower = 'b' then
      natOfDigits? 2 (afterUnderscore rest)
    else
      (natOfDigits? 10 ('0' :: c :: rest)).filter (· = 0)
  | chars => natOfDigits? 10 chars

def literal? (text : String) : Option Int :=
  signed? natLiteral? (trimmed text)

end Hunks.Text
