import Hunks.Text.Blank
import Hunks.Text.WordChar

namespace Hunks.Descriptor

open Text

def isIdentStart (c : Char) : Bool :=
  c.isAlpha || c = '_'

/-- An identifier as far as it goes, and what follows it. -/
def ident? : List Char → Option (List Char × List Char)
  | c :: rest =>
    if isIdentStart c then
      some (c :: rest.takeWhile isWordChar, rest.dropWhile isWordChar)
    else
      none
  | [] => none

/-- A group in parentheses that ends with the first closing one. -/
def group? : List Char → Option (List Char × List Char)
  | '(' :: rest =>
    match rest.dropWhile (· ≠ ')') with
    | _ :: after => some (rest.takeWhile (· ≠ ')'), after)
    | [] => none
  | _ => none

/-- A line of the short form: the name, the arguments and the registers. -/
def shortForm? (line : List Char) : Option (List Char × List Char × List Char) := do
  let (name, rest) ← ident? line
  let (arguments, rest) ← group? (dropBlanks rest)
  let (registers, rest) ← group? (dropBlanks rest)
  if dropBlanks rest = [] then some (name, arguments, registers) else none

def isParen (c : Char) : Bool :=
  c = '(' ∨ c = ')'

/-- The group in parentheses at the end, with no other one in it, and what is in front of it. -/
def lastGroup? (line : List Char) : Option (List Char × List Char) :=
  match dropBlanks line.reverse with
  | ')' :: rest =>
    match rest.dropWhile (!isParen ·) with
    | '(' :: front => some (front.reverse, (rest.takeWhile (!isParen ·)).reverse)
    | _ => none
  | _ => none

/-- What is in parentheses of which the second one ends the text. -/
def wholeGroup? : List Char → Option (List Char)
  | '(' :: rest =>
    match dropBlanks rest.reverse with
    | ')' :: inside => some inside.reverse
    | _ => none
  | _ => none

def call? (text : List Char) : Option (List Char × List Char) := do
  let (name, rest) ← ident? text
  let arguments ← wholeGroup? (dropBlanks rest)
  return (name, arguments)

/-- The first place where a name with its arguments starts; what is in front of it is the type. -/
def prototype? : (front : List Char) → List Char → Option (List Char × List Char × List Char)
  | _, [] => none
  | front, c :: rest =>
    match call? (c :: rest) with
    | some (name, arguments) => some (front.reverse, name, arguments)
    | none => prototype? (c :: front) rest

/-- A line of the long form: the type, the name, the arguments and the registers. -/
def longForm? (line : List Char) :
    Option ((List Char × List Char × List Char) × List Char) := do
  let (front, registers) ← lastGroup? line
  let declaration ← prototype? [] (stripChars front)
  return (declaration, registers)

def splitArgsFrom : (depth : Int) → (part : List Char) → List Char → List (List Char)
  | _, part, [] => [part.reverse]
  | depth, part, c :: rest =>
    if c = ',' ∧ depth = 0 then
      part.reverse :: splitArgsFrom depth [] rest
    else
      let depth := if c = '(' then depth + 1 else if c = ')' then depth - 1 else depth
      splitArgsFrom depth (c :: part) rest

/-- The arguments of a function, divided at the commas outside of parentheses. -/
def splitArgs (text : List Char) : List (List Char) :=
  ((splitArgsFrom 0 [] text).map stripChars).filter fun argument ↦
    argument ≠ [] ∧ argument ≠ "void".toList

/-- The name in a pointer to a function. -/
def pointerName? (text : List Char) : Option (List Char) :=
  match text with
  | '(' :: rest =>
    match dropBlanks rest with
    | '*' :: rest => do
      let (name, rest) ← ident? (dropBlanks rest)
      match dropBlanks rest with
      | ')' :: _ => some name
      | _ => none
    | _ => none
  | _ => none

def functionPointer? : List Char → Option (List Char)
  | [] => none
  | c :: rest =>
    match pointerName? (c :: rest) with
    | some name => some name
    | none => functionPointer? rest

/-- The identifiers of a text, each with what is in front of it, the latest first. -/
def identsFrom (fuel : Nat) (front text : List Char) (found : List (List Char × List Char)) :
    List (List Char × List Char) :=
  match fuel, text with
  | 0, _ => found
  | _, [] => found
  | fuel + 1, c :: rest =>
    match ident? (c :: rest) with
    | some (name, after) =>
      identsFrom fuel (name.reverse ++ front) after ((front.reverse, name) :: found)
    | none => identsFrom fuel (c :: front) rest found

/-- The last identifier of a text and what is in front of it. -/
def lastIdent? (text : List Char) : Option (List Char × List Char) :=
  (identsFrom text.length [] text []).head?

/-- The name and the type of an argument. -/
def argument (declaration : List Char) : List Char × List Char :=
  let dots := "...".toList
  match functionPointer? declaration with
  | some name => (name, declaration)
  | none =>
    match lastIdent? declaration with
    | some (front, name) =>
      if declaration = dots then (dots, declaration) else (name, stripChars front)
    | none => (dots, declaration)

def fields (text : List Char) : List (List Char) :=
  ((splitAt (fun c ↦ c = ',' ∨ c = '/') [] text).map stripChars).filter (· ≠ [])

def isRegister : List Char → Bool
  | [bank, number] => (bank = 'A' ∨ bank = 'D') ∧ '0' ≤ number ∧ number ≤ '7'
  | _ => false

/-- The registers of a list; what is none is left out. -/
def registers (text : List Char) : List (List Char) :=
  ((fields text).map fun field ↦ field.map Char.toUpper).filter isRegister

end Hunks.Descriptor
