import Hunks.Text.DecimalDigit

namespace Hunks.CommandLine

/-- What an option does to the settings. -/
inductive Effect (α : Type) where
  | help
  | flag (set : α → α)
  | value (set : String → α → Option α)

structure OptionSpec (α : Type) where
  names : List String
  effect : Effect α

/-- The options of a command that also takes the name of one file. -/
abbrev Grammar (α : Type) := List (OptionSpec α)

/-- Why a command line is left before its command runs. -/
inductive Exit where
  | help
  | usage
  deriving DecidableEq, Repr

namespace Exit

def code : Exit → Nat
  | help => 0
  | usage => 2

end Exit

/-- An option as it was given: its full name and the text joined to it, perhaps with a sign of
equality. -/
structure Use (α : Type) where
  effect : Effect α
  name : String
  equals : Bool
  joined : Option String

inductive Token (α : Type) where
  | word (text : String)
  | separator
  | option (use : Use α)
  | unknown

namespace Token

variable {α : Type}

def isOption : Token α → Bool
  | option _ | unknown => true
  | _ => false

end Token

namespace Grammar

variable {α : Type}

def effect? (grammar : Grammar α) (name : String) : Option (Effect α) :=
  (grammar.find? fun spec ↦ spec.names.contains name).map OptionSpec.effect

/-- The text in front of the first sign of equality and the one after it. -/
def splitEquals (text : String) : String × Option String :=
  let chars := text.toList
  match chars.dropWhile (· ≠ '=') with
  | _ :: after => (String.ofList (chars.takeWhile (· ≠ '=')), some (String.ofList after))
  | [] => (text, none)

def usesFor (grammar : Grammar α) (matching : String → Bool) (equals : Bool)
    (joined : Option String) : List (Use α) :=
  grammar.flatMap fun spec ↦ (spec.names.filter matching).map fun name ↦
    ⟨spec.effect, name, equals, joined⟩

/-- The options that an argument may stand for: long ones can be cut short, and the rest of a short
one is joined to it. -/
def uses (grammar : Grammar α) (argument : String) : List (Use α) :=
  if argument.startsWith "--" then
    let (start, joined) := splitEquals argument
    usesFor grammar (·.startsWith start) joined.isSome joined
  else
    let short := String.ofList (argument.toList.take 2)
    let rest := String.ofList (argument.toList.drop 2)
    usesFor grammar (· = short) false (some rest) ++
      usesFor grammar (fun name ↦ name ≠ short && name.startsWith argument) false none

def isDigits (chars : List Char) : Bool :=
  chars.all fun c ↦ (Text.digitValue? c).isSome

def isNegativeNumber (argument : String) : Bool :=
  match argument.toList with
  | '-' :: rest =>
    let rest := if rest.getLast? = some '\n' then rest.dropLast else rest
    match rest.dropWhile (· ≠ '.') with
    | _ :: after => isDigits (rest.takeWhile (· ≠ '.')) && !after.isEmpty && isDigits after
    | [] => !rest.isEmpty && isDigits rest
  | _ => false

/-- What an argument is on its own. It is an error if it may stand for several options. -/
def token (grammar : Grammar α) (argument : String) : Except Exit (Token α) :=
  if !argument.startsWith "-" then
    .ok (.word argument)
  else
    match grammar.effect? argument with
    | some effect => .ok (.option ⟨effect, argument, false, none⟩)
    | none =>
      let (name, joined) := splitEquals argument
      match if joined.isSome then grammar.effect? name else none with
      | some effect => .ok (.option ⟨effect, name, true, joined⟩)
      | none =>
        if argument = "-" then
          .ok (.word argument)
        else
          match grammar.uses argument with
          | [use] => .ok (.option use)
          | _ :: _ => .error .usage
          | [] =>
            if isNegativeNumber argument ∨ argument.contains ' ' then
              .ok (.word argument)
            else
              .ok .unknown

/-- After a separator there are only words. -/
def tokens (grammar : Grammar α) : List String → Except Exit (List (Token α))
  | [] => .ok []
  | "--" :: rest => .ok (.separator :: rest.map .word)
  | argument :: rest => return (← grammar.token argument) :: (← grammar.tokens rest)

/-- What a command line has said so far. -/
structure Reading (α : Type) where
  settings : α
  file : Option String
  extra : Bool

def applyEffect (settings : α) : Effect α × String → Except Exit α
  | (.help, _) => .error .help
  | (.flag set, _) => .ok (set settings)
  | (.value set, text) =>
    match set text settings with
    | some settings => .ok settings
    | none => .error .usage

/-- The effects of one argument, which may join several short options, the last one perhaps with
its value, what follows the argument then, and whether there is more in it than options. -/
def expand (grammar : Grammar α) : (fuel : Nat) → (use : Use α) → (rest : List (Token α)) →
    Except Exit (List (Effect α × String) × List (Token α) × Bool)
  | 0, _, _ => .error .usage
  | fuel + 1, use, rest =>
    match use.effect, use.joined with
    | .value set, some text => .ok ([(.value set, text)], rest, false)
    | .value set, none =>
      match rest with
      | .word text :: rest => .ok ([(.value set, text)], rest, false)
      | _ => .error .usage
    | effect, none => .ok ([(effect, "")], rest, false)
    | effect, some text =>
      match text.toList with
      | [] => .error .usage
      | c :: more =>
        if use.name.startsWith "--" ∨ use.equals ∨ c = '-' then
          .error .usage
        else
          let name := String.ofList ['-', c]
          match grammar.effect? name with
          | none => .ok ([(effect, "")], rest, true)
          | some next => do
            let (equals, joined) := match more with
              | [] => (false, none)
              | '=' :: more => (true, some (String.ofList more))
              | more => (false, some (String.ofList more))
            let (effects, rest, extra) ← grammar.expand fuel ⟨next, name, equals, joined⟩ rest
            return ((effect, "") :: effects, rest, extra)

/-- The file, with the separators around it. -/
def takeFile? (tokens : List (Token α)) : Option (String × List (Token α)) :=
  match tokens.dropWhile (fun token ↦ token matches .separator) with
  | .word text :: rest => some (text, rest.dropWhile (fun token ↦ token matches .separator))
  | _ => none

def readTokens (grammar : Grammar α) : (fuel : Nat) → List (Token α) → Reading α →
    Except Exit (Reading α)
  | 0, _, reading => .ok reading
  | _ + 1, [], reading => .ok reading
  | fuel + 1, .unknown :: rest, reading =>
    grammar.readTokens fuel rest { reading with extra := true }
  | fuel + 1, .option use :: rest, reading => do
    let size := (use.joined.getD "").length + 1
    let (effects, rest, extra) ← grammar.expand size use rest
    let settings ← effects.foldlM applyEffect reading.settings
    grammar.readTokens fuel rest { reading with settings, extra := reading.extra || extra }
  | fuel + 1, token :: rest, reading =>
    match if reading.file.isNone then takeFile? (token :: rest) else none with
    | some (file, rest) => grammar.readTokens fuel rest { reading with file := some file }
    | none =>
      grammar.readTokens fuel (rest.dropWhile (!·.isOption)) { reading with extra := true }

/-- Settings and file of a command line. -/
def read (grammar : Grammar α) (settings : α) (arguments : List String) :
    Except Exit (α × String) := do
  let tokens ← grammar.tokens arguments
  let reading ← grammar.readTokens (tokens.length + 1) tokens ⟨settings, none, false⟩
  match reading.file with
  | some file => if reading.extra then throw .usage else return (reading.settings, file)
  | none => throw .usage

end Grammar

end Hunks.CommandLine
