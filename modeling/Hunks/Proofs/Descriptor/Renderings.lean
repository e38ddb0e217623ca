import Mathlib
import Hunks.Proofs.Descriptor.Drafts
import Hunks.Proofs.IntMap

namespace Hunks.Descriptor

open Hunks.Action (run)
open Text

/-- A function at its place in a library. -/
structure Entry where
  index : Nat
  name : Identifier
  isPrivate : Bool
  arguments : List (Identifier × Register)

/-- Arguments with these names and registers. -/
def Agrees (expected : List (Identifier × Register)) (arguments : List Argument) : Prop :=
  arguments.map (fun argument ↦ (argument.name, argument.register)) =
    expected.map fun argument ↦ (String.ofList argument.1.chars, String.ofList argument.2.chars)

structure Entry.Matches (entry : Entry) (function : Prototype) : Prop where
  name : function.name = String.ofList entry.name.chars
  isPrivate : function.isPrivate = entry.isPrivate
  bias : function.bias = firstBias + vectorSize * entry.index
  arguments : Agrees entry.arguments function.arguments

/-- A descriptor with these functions at their places and with nothing elsewhere. -/
structure Lists (descriptor : Descriptor) (entries : List Entry) : Prop where
  isSome_iff : ∀ index, (descriptor.at? index).isSome ↔ ∃ entry ∈ entries, index = entry.index
  exists_function : ∀ entry ∈ entries, ∃ function, descriptor.at? entry.index = some function ∧
    entry.Matches function

/-- The lines of the short form, in which a number `fits` in a line. -/
inductive ShortLines (fits : List Char → Prop) : List Entry → List (List Char) → Prop
  | nil : ShortLines fits [] []
  | cons {entry : Entry} {entries : List Entry} {lines : List (List Char)}
    {digits arguments registers : List Char} :
    Numeral (30 + 6 * entry.index) digits → fits digits →
    Listed [',', '/'] IsName (entry.arguments.map Prod.fst) arguments →
    Listed [',', '/'] IsRegister (entry.arguments.map Prod.snd) registers →
    ShortLines fits entries lines →
    ShortLines fits (entry :: entries)
      (("##bias ".toList ++ digits) :: (if entry.isPrivate then "##private" else "##public").toList ::
        shortLine entry.name arguments registers :: lines)

/-- The lines of the long form behind the bias: those of the functions from the `next` place on, as long as no
line says otherwise with this visibility. -/
inductive LongLines (fits : List Char → Prop) : (next : Nat) → (isPrivate : Bool) → List Entry →
    List (List Char) → Prop
  | nil {next : Nat} {isPrivate : Bool} : LongLines fits next isPrivate [] []
  | visibility {next : Nat} {isPrivate other : Bool} {entries : List Entry} {lines : List (List Char)} :
    LongLines fits next other entries lines →
    LongLines fits next isPrivate entries ((if other then "==private" else "==public").toList :: lines)
  | skip {next : Nat} {isPrivate : Bool} {entries : List Entry} {lines : List (List Char)} :
    LongLines fits (next + 1) isPrivate entries lines →
    LongLines fits next isPrivate entries ("==reserve".toList :: lines)
  | reserve {next gap : Nat} {isPrivate : Bool} {entries : List Entry} {lines : List (List Char)}
    {digits : List Char} : Numeral gap digits → fits digits →
    LongLines fits (next + gap) isPrivate entries lines →
    LongLines fits next isPrivate entries (("==reserve ".toList ++ digits) :: lines)
  | function {entry : Entry} {entries : List Entry} {lines : List (List Char)}
    {type arguments blanks registers : List Char} : IsReturnType type →
    Listed [','] IsDeclaration (entry.arguments.map Prod.fst) arguments → (∀ c ∈ blanks, isBlank c) →
    Listed [',', '/'] IsRegister (entry.arguments.map Prod.snd) registers →
    LongLines fits (entry.index + 1) entry.isPrivate entries lines →
    LongLines fits entry.index entry.isPrivate (entry :: entries)
      (longLine type entry.name arguments blanks registers :: lines)
  | shared {next : Nat} {isPrivate : Bool} {entries : List Entry} {lines : List (List Char)} {word : String}
    {name : Identifier} {type arguments blanks registers : List Char} : word = "==alias" ∨ word = "==varargs" →
    IsReturnType type → (∀ c ∈ blanks, isBlank c) → (∀ c ∈ registers, c ≠ '(' ∧ c ≠ ')') →
    LongLines fits next isPrivate entries lines →
    LongLines fits next isPrivate entries
      (word.toList :: longLine type name arguments blanks registers :: lines)

/-- A text that lists the functions in one of the two forms. -/
inductive Renders (fits : List Char → Prop) (entries : List Entry) (text : String) : Prop
  | short {lines : List (List Char)} : ShortLines fits entries lines → Consists text lines →
    Renders fits entries text
  | long {lines : List (List Char)} : LongLines fits 0 false entries lines →
    Consists text ("==bias 30".toList :: lines) → Renders fits entries text

/-- A number that is not too long to be read. -/
def Fits (digits : List Char) : Prop :=
  digits.length ≤ maxDigits

variable {entry : Entry} {entries : List Entry} {expected : List (Identifier × Register)}
  {type arguments blanks registers digits : List Char} {lines : List (List Char)} {name : Identifier}
  {mark : Char} {draft draft' middle : Draft} {functions : List Prototype} {library : String}
  {base : Option String}

section Functions

def paired (arguments : List (List Char × Option (List Char))) (registers : List (List Char)) : List Argument :=
  (arguments.zip registers).map fun pair ↦
    ⟨String.ofList pair.1.1, String.ofList pair.2, pair.1.2.map String.ofList⟩

theorem agrees_paired {pairs : List (List Char × Option (List Char))}
    (h : pairs.map Prod.fst = expected.map (·.1.chars)) :
    Agrees expected (paired pairs (expected.map (·.2.chars))) := by
  induction expected generalizing pairs with
  | nil =>
    rw [List.map_nil, List.map_eq_nil_iff] at h
    rw [h]
    rfl
  | cons first expected ih =>
    cases pairs with
    | nil => cases h
    | cons pair pairs =>
      obtain ⟨hfirst, hrest⟩ := List.cons.inj h
      rw [Agrees, paired, List.map_cons, List.zip_cons_cons, List.map_cons, List.map_cons, List.map_cons,
        hfirst]
      exact congrArg _ (ih hrest)

theorem tells_shortLine (name : Identifier)
    (harguments : Listed [',', '/'] IsName (expected.map Prod.fst) arguments)
    (hregisters : Listed [',', '/'] IsRegister (expected.map Prod.snd) registers) :
    ∃ found, Draft.Tells (shortLine name arguments registers) name.chars found none ∧
      Agrees expected found := by
  have hplain : ∀ c ∈ arguments, c ≠ ')' :=
    harguments.ne_of_mem (by decide) (by decide) fun _ _ ha _ hc ↦ ha.ne_of_mem hc (by decide) (by decide)
  refine ⟨paired ((fields arguments).map fun name ↦ (name, none)) (Descriptor.registers registers),
    fun source number draft ↦ ?_, ?_⟩
  · rw [Draft.prototype, String.toList_ofList,
      shortForm?_shortLine name hplain fun c hc ↦ (hregisters.ne_paren c hc).2]
    exact Action.run_bind_ok (Draft.run_pairUp ..)
  · have hnames : ((fields arguments).map fun name ↦ (name, (none : Option (List Char)))).map Prod.fst =
        expected.map (·.1.chars) := by
      rw [fields_names harguments, List.map_map, List.map_map, List.map_map]
      rfl
    rw [registers_listed hregisters, List.map_map]
    exact agrees_paired hnames

/-- A line of the long form is read whatever its arguments are. -/
theorem tells_longLine (htype : IsReturnType type) (name : Identifier) (arguments : List Char)
    (hblanks : ∀ c ∈ blanks, isBlank c) (hregisters : ∀ c ∈ registers, c ≠ '(' ∧ c ≠ ')') :
    ∃ found returnType,
      Draft.Tells (longLine type name arguments blanks registers) name.chars found returnType ∧
      ∀ expected : List (Identifier × Register),
        ((splitArgs arguments).map fun declaration ↦ (argument declaration).1) = expected.map (·.1.chars) →
        Descriptor.registers registers = expected.map (·.2.chars) → Agrees expected found := by
  refine ⟨paired ((splitArgs arguments).map fun declaration ↦
      ((argument declaration).1, some (argument declaration).2)) (Descriptor.registers registers),
    if stripChars type = [] then none else some (String.ofList (stripChars type)),
    fun source number draft ↦ ?_, fun expected harguments hexpected ↦ ?_⟩
  · rw [Draft.prototype, String.toList_ofList, shortForm?_longLine htype]
    simp only [longForm?_longLine htype name arguments hblanks hregisters]
    exact Action.run_bind_ok (Draft.run_pairUp ..)
  · rw [hexpected]
    exact agrees_paired (by rw [← harguments, List.map_map]; rfl)

end Functions

section Lines

theorem decimal?_of_fits {n : Nat} (hdigits : Numeral n digits) (hfits : Fits digits) :
    decimal? (String.ofList digits) = some (n : Int) := by
  rw [hdigits.decimal?, if_neg (Nat.not_lt.mpr hfits)]

theorem lineOf_bias {n : Nat} (hmark : mark = '#' ∨ mark = '=') (hdigits : Numeral n digits) :
    lineOf (mark :: mark :: ("bias ".toList ++ digits)) = .directive "bias" (String.ofList digits) := by
  have hword : ∀ c ∈ ['b', 'i', 'a', 's'], isBlank c = false := by simp [isBlank, inRanges, blankBounds]
  have hlower : lower (String.ofList ['b', 'i', 'a', 's']) = "bias" := by decide +kernel
  have hline := Line.ofString_number hmark (List.cons_ne_nil _ _) hword hdigits
  rw [hlower] at hline
  exact hline

theorem lineOf_reserve {n : Nat} (hdigits : Numeral n digits) :
    lineOf ("==reserve ".toList ++ digits) = .directive "reserve" (String.ofList digits) := by
  have hword : ∀ c ∈ ['r', 'e', 's', 'e', 'r', 'v', 'e'], isBlank c = false := by
    simp [isBlank, inRanges, blankBounds]
  have hlower : lower (String.ofList ['r', 'e', 's', 'e', 'r', 'v', 'e']) = "reserve" := by decide +kernel
  have hline := Line.ofString_number (Or.inr rfl) (List.cons_ne_nil _ _) hword hdigits
  rw [hlower] at hline
  exact hline

theorem lineOf_shortLine (name : Identifier) (arguments registers : List Char) :
    lineOf (shortLine name arguments registers) =
      .function (String.ofList (shortLine name arguments registers)) := by
  refine Line.ofString_function (stripChars_of_ends (fun c hc ↦ ?_) fun c hc ↦ ?_)
    ⟨name.first, _, rfl, name.isIdentStart_first⟩
  · cases hc
    exact name.isBlank_of_mem List.mem_cons_self
  · have hlast : shortLine name arguments registers =
        (name.chars ++ '(' :: (arguments ++ ')' :: '(' :: registers)) ++ [')'] := by simp [shortLine]
    rw [hlast, List.getLast?_concat] at hc
    cases hc
    decide

theorem lineOf_longLine (htype : IsReturnType type) (name : Identifier)
    (arguments blanks registers : List Char) :
    lineOf (longLine type name arguments blanks registers) =
      .function (String.ofList (longLine type name arguments blanks registers)) := by
  refine Line.ofString_function (stripChars_longLine htype name arguments blanks registers) ?_
  obtain ⟨first, rest, rfl, hstart⟩ := htype.starts
  exact ⟨first, _, rfl, hstart⟩

end Lines

section Readings

/-- A draft with more functions at its end. -/
structure Gains (entries : List Entry) (draft draft' : Draft) : Prop where
  isAlias : draft'.isAlias = false
  functions : ∃ functions, draft'.functions.toList = draft.functions.toList ++ functions ∧
    List.Forall₂ Entry.Matches entries functions

theorem Gains.nil (halias : draft.isAlias = false) : Gains [] draft draft :=
  ⟨halias, [], (List.append_nil _).symm, .nil⟩

theorem Gains.same (h : Gains entries middle draft') (hsame : middle.functions = draft.functions) :
    Gains entries draft draft' :=
  ⟨h.isAlias, hsame ▸ h.functions⟩

theorem Gains.cons {function : Prototype} (h : Gains entries (draft.declare function) draft')
    (hmatches : entry.Matches function) : Gains (entry :: entries) draft draft' := by
  obtain ⟨functions, hfunctions, hall⟩ := h.functions
  refine ⟨h.isAlias, function :: functions, ?_, .cons hmatches hall⟩
  rw [hfunctions, Draft.declare, Array.toList_push, List.append_assoc]
  rfl

theorem takes_shortLine (harguments : Listed [',', '/'] IsName (entry.arguments.map Prod.fst) arguments)
    (hregisters : Listed [',', '/'] IsRegister (entry.arguments.map Prod.snd) registers)
    (halias : draft.isAlias = false) (hbias : draft.bias = firstBias + vectorSize * entry.index)
    (hprivate : draft.isPrivate = entry.isPrivate) :
    ∃ function, entry.Matches function ∧
      Draft.Takes (lineOf (shortLine entry.name arguments registers)) draft (draft.declare function) := by
  obtain ⟨found, htells, hfound⟩ := tells_shortLine entry.name harguments hregisters
  refine ⟨⟨String.ofList entry.name.chars, found, draft.bias, draft.isPrivate, none⟩,
    ⟨rfl, hprivate, hbias, hfound⟩, ?_⟩
  rw [lineOf_shortLine]
  exact Draft.takes_function htells halias

theorem takes_longLine (htype : IsReturnType type)
    (harguments : Listed [','] IsDeclaration (entry.arguments.map Prod.fst) arguments)
    (hblanks : ∀ c ∈ blanks, isBlank c)
    (hregisters : Listed [',', '/'] IsRegister (entry.arguments.map Prod.snd) registers)
    (halias : draft.isAlias = false) (hbias : draft.bias = firstBias + vectorSize * entry.index)
    (hprivate : draft.isPrivate = entry.isPrivate) :
    ∃ function, entry.Matches function ∧
      Draft.Takes (lineOf (longLine type entry.name arguments blanks registers)) draft (draft.declare function) := by
  obtain ⟨found, returnType, htells, hfound⟩ :=
    tells_longLine htype entry.name arguments hblanks hregisters.ne_paren
  have hnames := splitArgs_listed harguments
  have hnumbers := registers_listed hregisters
  rw [List.map_map] at hnames hnumbers
  refine ⟨⟨String.ofList entry.name.chars, found, draft.bias, draft.isPrivate, returnType⟩,
    ⟨rfl, hprivate, hbias, hfound _ hnames hnumbers⟩, ?_⟩
  rw [lineOf_longLine htype]
  exact Draft.takes_function htells halias

/-- The flag that the directive of an alias sets is reset by the function behind it. -/
theorem takes_shared {word : String} (hword : word = "==alias" ∨ word = "==varargs") (htype : IsReturnType type)
    (name : Identifier) (arguments : List Char) (hblanks : ∀ c ∈ blanks, isBlank c)
    (hregisters : ∀ c ∈ registers, c ≠ '(' ∧ c ≠ ')') (halias : draft.isAlias = false) :
    ∃ middle, Draft.Takes (lineOf word.toList) draft middle ∧
      Draft.Takes (lineOf (longLine type name arguments blanks registers)) middle draft := by
  obtain ⟨found, returnType, htells, -⟩ := tells_longLine htype name arguments hblanks hregisters
  obtain ⟨directive, hdirective, hline⟩ : ∃ directive, (directive = "alias" ∨ directive = "varargs") ∧
      lineOf word.toList = .directive directive "" := by
    rcases hword with rfl | rfl
    · exact ⟨"alias", Or.inl rfl, by decide +kernel⟩
    · exact ⟨"varargs", Or.inr rfl, by decide +kernel⟩
  refine ⟨{ draft with isAlias := true }, hline ▸ Draft.takes_alias hdirective draft, ?_⟩
  have hfunction : Draft.Takes _ { draft with isAlias := true } { draft with isAlias := false } :=
    Draft.takes_alias_function htells rfl
  rwa [← lineOf_longLine htype, ← halias] at hfunction

/-- In the short form every function has a bias and a visibility of its own. -/
theorem ShortLines.reads (h : ShortLines Fits entries lines) (draft : Draft) (halias : draft.isAlias = false) :
    ∃ draft', Draft.Reads (lines.map lineOf) draft draft' ∧ Gains entries draft draft' := by
  induction h generalizing draft with
  | nil => exact ⟨draft, .nil, .nil halias⟩
  | @cons entry entries lines digits arguments registers hdigits hfits harguments hregisters _ ih =>
    let placed : Draft := { draft with bias := ((30 + 6 * entry.index : Nat) : Int) }
    let shown : Draft := { placed with isPrivate := entry.isPrivate }
    have hbias : Draft.Takes (lineOf ("##bias ".toList ++ digits)) draft placed :=
      lineOf_bias (Or.inl rfl) hdigits ▸ Draft.takes_bias (decimal?_of_fits hdigits hfits) draft
    have hline : lineOf (if entry.isPrivate then "##private" else "##public").toList =
        .directive (if entry.isPrivate then "private" else "public") "" := by
      cases entry.isPrivate <;> decide +kernel
    have hvisibility : Draft.Takes _ placed shown := hline ▸ Draft.takes_visibility entry.isPrivate placed
    have hshown : shown.isAlias = false ∧ shown.bias = firstBias + vectorSize * entry.index :=
      ⟨halias, by simp [shown, placed, firstBias, vectorSize]⟩
    obtain ⟨function, hmatches, hfunction⟩ := takes_shortLine harguments hregisters hshown.1 hshown.2 rfl
    obtain ⟨draft', hreads, hgains⟩ := ih (shown.declare function) halias
    have hgains : Gains (entry :: entries) shown draft' := hgains.cons hmatches
    exact ⟨draft', .cons hbias (.cons hvisibility (.cons hfunction hreads)), hgains.same rfl⟩

/-- In the long form the bias and the visibility go on from line to line, and aliases leave no trace. -/
theorem LongLines.reads {next : Nat} {isPrivate : Bool} (h : LongLines Fits next isPrivate entries lines)
    (draft : Draft) (halias : draft.isAlias = false) (hbias : draft.bias = firstBias + vectorSize * next)
    (hprivate : draft.isPrivate = isPrivate) :
    ∃ draft', Draft.Reads (lines.map lineOf) draft draft' ∧ Gains entries draft draft' := by
  induction h generalizing draft with
  | nil => exact ⟨draft, .nil, .nil halias⟩
  | @visibility next isPrivate other entries lines _ ih =>
    have hline : lineOf (if other then "==private" else "==public").toList =
        .directive (if other then "private" else "public") "" := by
      cases other <;> decide +kernel
    obtain ⟨draft', hreads, hgains⟩ := ih { draft with isPrivate := other } halias hbias rfl
    exact ⟨draft', .cons (hline ▸ Draft.takes_visibility other draft) hreads, hgains.same rfl⟩
  | @skip next isPrivate entries lines _ ih =>
    have hline : lineOf "==reserve".toList = .directive "reserve" "" := by decide +kernel
    obtain ⟨draft', hreads, hgains⟩ := ih { draft with bias := draft.bias + 1 * vectorSize } halias
      (by rw [hbias]; push_cast; ring) hprivate
    exact ⟨draft', .cons (hline ▸ Draft.takes_reserve rfl draft) hreads, hgains.same rfl⟩
  | @reserve next gap isPrivate entries lines digits hdigits hfits _ ih =>
    have hcount : (if String.ofList digits = "" then some 1 else decimal? (String.ofList digits)) =
        some (gap : Int) := by
      rw [if_neg (by simpa using hdigits.ne_nil), decimal?_of_fits hdigits hfits]
    obtain ⟨draft', hreads, hgains⟩ := ih { draft with bias := draft.bias + gap * vectorSize } halias
      (by rw [hbias]; push_cast; ring) hprivate
    exact ⟨draft', .cons (lineOf_reserve hdigits ▸ Draft.takes_reserve hcount draft) hreads, hgains.same rfl⟩
  | function htype harguments hblanks hregisters _ ih =>
    obtain ⟨function, hmatches, hfunction⟩ :=
      takes_longLine htype harguments hblanks hregisters halias hbias hprivate
    obtain ⟨draft', hreads, hgains⟩ := ih (draft.declare function) halias
      (by rw [Draft.declare, hbias]; push_cast; ring) hprivate
    exact ⟨draft', .cons hfunction hreads, hgains.cons hmatches⟩
  | shared hword htype hblanks hregisters _ ih =>
    obtain ⟨middle, hdirective, hfunction⟩ := takes_shared hword htype _ _ hblanks hregisters halias
    obtain ⟨draft', hreads, hgains⟩ := ih draft halias hbias hprivate
    exact ⟨draft', .cons hdirective (.cons hfunction hreads), hgains⟩

theorem indexOf_bias (index : Nat) : indexOf (firstBias + vectorSize * index) = index := by
  rw [indexOf, firstBias, vectorSize, Int.fdiv_eq_ediv_of_nonneg _ (by decide)]
  omega

theorem at?_ofFunctions (library : String) (base : Option String) (functions : List Prototype) (index : Int) :
    (ofFunctions library base functions).at? index =
      IntMap.last? index (functions.map fun function ↦ (indexOf function.bias, function)) := by
  have hputs := IntMap.get?_puts index (functions.map fun function ↦ (indexOf function.bias, function)) []
  rw [IntMap.puts, List.foldl_map] at hputs
  exact hputs.trans (Option.or_none ..)

theorem lists_of_matches (h : List.Forall₂ Entry.Matches entries functions)
    (hnodup : (entries.map Entry.index).Nodup) : Lists (ofFunctions library base functions) entries := by
  have hkeys : (functions.map fun function ↦ (indexOf function.bias, function)).map Prod.fst =
      entries.map fun entry ↦ (entry.index : Int) := by
    clear hnodup
    induction h with
    | nil => rfl
    | cons hmatches _ ih =>
      rw [List.map_cons, List.map_cons, List.map_cons, hmatches.bias, indexOf_bias, ih]
  have hnumbers : ((functions.map fun function ↦ (indexOf function.bias, function)).map Prod.fst).Nodup := by
    have hcast := hnodup.map (f := fun index : Nat ↦ (index : Int)) fun _ _ h ↦ Int.ofNat.inj h
    rw [List.map_map] at hcast
    rw [hkeys]
    exact hcast
  refine ⟨fun index ↦ ?_, fun entry hm ↦ ?_⟩
  · rw [at?_ofFunctions, IntMap.isSome_last?_iff, hkeys, List.mem_map]
    exact exists_congr fun entry ↦ and_congr_right fun _ ↦ eq_comm
  · obtain ⟨function, hfunction, hmatches⟩ : ∃ function ∈ functions, entry.Matches function := by
      clear hnodup hkeys hnumbers
      induction h with
      | nil => cases hm
      | cons hmatches _ ih =>
        rcases List.mem_cons.mp hm with rfl | hm
        · exact ⟨_, List.mem_cons_self, hmatches⟩
        · obtain ⟨function, hfunction, hmatches⟩ := ih hm
          exact ⟨function, List.mem_cons_of_mem _ hfunction, hmatches⟩
    refine ⟨function, ?_, hmatches⟩
    rw [at?_ofFunctions]
    refine IntMap.last?_of_nodup hnumbers (List.mem_map.mpr ⟨function, hfunction, ?_⟩)
    rw [hmatches.bias, indexOf_bias]

/-- Either form of a table is read as the table. -/
theorem parse_rendered {text : String} (source : String) (library : Option String)
    (hnodup : (entries.map Entry.index).Nodup) (h : Renders Fits entries text) :
    ∃ descriptor, (parse text source library ()).result = .ok descriptor ∧ Lists descriptor entries := by
  obtain ⟨draft, hparse, hgains⟩ : ∃ draft, (parse text source library ()).result = .ok (draft.finish source) ∧
      Gains entries (Draft.start library) draft := by
    cases h with
    | short hlines htext =>
      obtain ⟨draft, hreads, hgains⟩ := hlines.reads (Draft.start library) rfl
      exact ⟨draft, htext.parse hreads, hgains⟩
    | long hlines htext =>
      have hnumber : decimal? "30" = some 30 := by decide +kernel
      have hbias := Draft.takes_bias hnumber (Draft.start library)
      have hline : lineOf "==bias 30".toList = .directive "bias" "30" := by decide +kernel
      rw [← hline] at hbias
      obtain ⟨draft, hreads, hgains⟩ := hlines.reads { Draft.start library with bias := 30 } rfl rfl rfl
      exact ⟨draft, htext.parse (.cons hbias hreads), hgains.same rfl⟩
  obtain ⟨functions, hfunctions, hall⟩ := hgains.functions
  refine ⟨_, hparse, ?_⟩
  rw [Draft.finish, hfunctions]
  exact lists_of_matches hall hnodup

def sampleValue : Identifier := .of 'v' "alue".toList ⟨rfl, rfl⟩

def sampleHook : Identifier := .of 'h' "ook".toList ⟨rfl, rfl⟩

def sampleCallback : Identifier := .of 'c' "b".toList ⟨rfl, rfl⟩

def samplePlain : Entry :=
  ⟨0, .of 'D' "oThis".toList ⟨rfl, rfl⟩, true, [(sampleValue, .data 0)]⟩

def samplePointer : Entry :=
  ⟨2, .of 'D' "oThat".toList ⟨rfl, rfl⟩, false, [(sampleHook, .address 0), (sampleCallback, .address 2)]⟩

def sampleShortLines : List String :=
  ["##bias 30", "##private", "* ", "DoThis(value)(d0)", "", "##bias 42", "##public", "DoThat(hook,cb)(a0/A2)"]

def sampleLongLines : List String :=
  ["==bias 30", "==private", "LONG DoThis(LONG value) (d0)", "==reserve 1", " * ", "==public",
    "VOID DoThat(struct Hook *hook, LONG (*cb)(APTR, LONG)) (a0,A2)", "==varargs",
    "VOID DoThatTags(struct Hook *hook, Tag tag, ...) (a0,a1)"]

def sampleText (lines : List String) (rest : String) : String :=
  String.ofList ((lines.map String.toList).flatMap (· ++ ['\n']) ++ rest.toList)

theorem sampleRegisters : IsRegister (.data 0) "d0".toList ∧ IsRegister (.address 0) "a0".toList ∧
    IsRegister (.address 2) "A2".toList := by
  refine ⟨?_, ?_, ?_⟩ <;>
  · show (stripChars _).map _ = _
    decide +kernel

theorem sampleNames : IsName sampleValue "value".toList ∧ IsName sampleHook "hook".toList ∧
    IsName sampleCallback "cb".toList := by
  refine ⟨?_, ?_, ?_⟩ <;>
  · show stripChars _ = _
    decide +kernel

theorem sampleShortLines_renders :
    Renders Fits [samplePlain, samplePointer] (sampleText sampleShortLines "##end\nmore") := by
  have hfirst : Numeral (30 + 6 * 0) "30".toList := ⟨List.cons_ne_nil _ _, List.all_eq_true.mp rfl, rfl⟩
  have hsecond : Numeral (30 + 6 * 2) "42".toList := ⟨List.cons_ne_nil _ _, List.all_eq_true.mp rfl, rfl⟩
  have hfits : Fits "30".toList ∧ Fits "42".toList := ⟨Nat.le_of_ble_eq_true rfl, Nat.le_of_ble_eq_true rfl⟩
  obtain ⟨hvalue, hhook, hcallback⟩ := sampleNames
  obtain ⟨hd0, ha0, ha2⟩ := sampleRegisters
  have hlines : ShortLines Fits [samplePlain, samplePointer] _ :=
    .cons hfirst hfits.1 (Or.inr (.single hvalue)) (Or.inr (.single hd0))
      (.cons hsecond hfits.2 (Or.inr (.cons hhook List.mem_cons_self (.single hcallback)))
        (Or.inr (.cons ha0 (List.mem_cons_of_mem _ List.mem_cons_self) (.single ha2))) .nil)
  refine .short hlines ⟨sampleShortLines.map String.toList, '#', "\nmore".toList, ?_, ?_, Or.inl rfl, ?_, ?_⟩
  · exact forall_isLineBreak (by decide +kernel)
  · decide +kernel
  · intro c hc
    cases hc
    decide
  · rw [sampleText, String.toList_ofList]
    rfl

theorem sampleTypes : IsReturnType "LONG ".toList ∧ IsReturnType "VOID ".toList ∧
    IsType "struct Hook *".toList := by
  have hapart : isWordChar ' ' = false ∧ isWordChar '*' = false := by decide
  exact ⟨⟨⟨by simp, "LONG".toList, ' ', rfl, hapart.1⟩, 'L', "ONG ".toList, rfl, rfl⟩,
    ⟨⟨by simp, "VOID".toList, ' ', rfl, hapart.1⟩, 'V', "OID ".toList, rfl, rfl⟩,
    by simp, "struct Hook ".toList, '*', rfl, hapart.2⟩

theorem sampleDeclarations : IsDeclaration sampleValue "LONG value".toList ∧
    IsDeclaration sampleHook "struct Hook *hook".toList ∧
    IsDeclaration sampleCallback " LONG (*cb)(APTR, LONG)".toList := by
  obtain ⟨hlong, -, hstruct⟩ := sampleTypes
  have hvalue : stripChars "LONG value".toList = "LONG ".toList ++ sampleValue.chars := by decide +kernel
  have hhook : stripChars "struct Hook *hook".toList = "struct Hook *".toList ++ sampleHook.chars := by
    decide +kernel
  have hcallback : stripChars " LONG (*cb)(APTR, LONG)".toList = "LONG ".toList ++ '(' :: '*' ::
      (sampleCallback.chars ++ ')' :: '(' :: ("APTR, LONG".toList ++ [')'])) := by
    decide +kernel
  rw [IsDeclaration, IsDeclaration, IsDeclaration, hvalue, hhook, hcallback]
  exact ⟨.plain hlong.toIsType, .plain hstruct, .pointer hlong.toIsType (Balanced.of_plain (by simp))⟩

theorem sampleLongLines_renders :
    Renders Fits [samplePlain, samplePointer] (sampleText sampleLongLines "==end\n") := by
  have hgap : Numeral 1 "1".toList := ⟨List.cons_ne_nil _ _, List.all_eq_true.mp rfl, rfl⟩
  have hfits : Fits "1".toList := Nat.le_of_ble_eq_true rfl
  have hblank : ∀ c ∈ " ".toList, isBlank c := by
    intro c hc
    obtain rfl := List.mem_singleton.mp hc
    decide
  obtain ⟨hlong, hvoid, -⟩ := sampleTypes
  obtain ⟨hvalue, hhook, hcallback⟩ := sampleDeclarations
  obtain ⟨hd0, ha0, ha2⟩ := sampleRegisters
  have hshared : LongLines Fits 3 false [] ["==varargs".toList,
      longLine "VOID ".toList (.of 'D' "oThatTags".toList ⟨rfl, rfl⟩) "struct Hook *hook, Tag tag, ...".toList
        " ".toList "a0,a1".toList] :=
    .shared (Or.inr rfl) hvoid hblank (by simp) .nil
  have hpointer := @LongLines.function Fits samplePointer _ _ _ _ _ _ hvoid
    (Or.inr (.cons hhook List.mem_cons_self (.single hcallback))) hblank
    (Or.inr (.cons ha0 List.mem_cons_self (.single ha2))) hshared
  have hplain := @LongLines.function Fits samplePlain _ _ _ _ _ _ hlong (Or.inr (.single hvalue)) hblank
    (Or.inr (.single hd0)) (.reserve hgap hfits (.visibility hpointer))
  refine .long (.visibility hplain)
    ⟨sampleLongLines.map String.toList, '=', "\n".toList, ?_, ?_, Or.inr rfl, ?_, ?_⟩
  · exact forall_isLineBreak (by decide +kernel)
  · decide +kernel
  · intro c hc
    cases hc
    decide
  · rw [sampleText, String.toList_ofList]
    rfl

theorem parse_rendered_sample :
    ([samplePlain, samplePointer].map Entry.index).Nodup ∧
      ∀ text ∈ [sampleText sampleShortLines "##end\nmore", sampleText sampleLongLines "==end\n"],
        Renders Fits [samplePlain, samplePointer] text ∧
          ∃ descriptor, (parse text "x_lib.fd" none ()).result = .ok descriptor ∧
            Lists descriptor [samplePlain, samplePointer] := by
  have hnodup : ([samplePlain, samplePointer].map Entry.index).Nodup := by decide
  refine ⟨hnodup, fun text hm ↦ ?_⟩
  rcases List.mem_pair.mp hm with rfl | rfl
  · exact ⟨sampleShortLines_renders, parse_rendered "x_lib.fd" none hnodup sampleShortLines_renders⟩
  · exact ⟨sampleLongLines_renders, parse_rendered "x_lib.fd" none hnodup sampleLongLines_renders⟩

section Limits

theorem isLineBreak_bias {n : Nat} (hdigits : Numeral n digits) :
    ∀ c ∈ "##bias ".toList ++ digits, isLineBreak c = false := by
  have hword : ∀ c ∈ "##bias ".toList, isLineBreak c = false := by simp [isLineBreak]
  exact fun c hc ↦ (List.mem_append.mp hc).elim (hword c) fun hc ↦ isLineBreak_of_isDigit (hdigits.isDigit c hc)

/-- A bias with too many digits is refused. -/
theorem parse_long_bias {n : Nat} (hdigits : Numeral n digits) (hlong : maxDigits < digits.length)
    (rest : List Char) (source : String) (library : Option String) :
    (parse (String.ofList ("##bias ".toList ++ digits ++ '\n' :: rest)) source library ()).result =
      .error (.bias source 1 (String.ofList digits)) := by
  obtain ⟨more, hbody⟩ : ∃ more, body (String.ofList ("##bias ".toList ++ digits ++ '\n' :: rest)) =
      (.directive "bias" (String.ofList digits), 1) :: more := by
    rw [body, Text.lines, String.toList_ofList, linesFrom_line (isLineBreak_bias hdigits), List.map_cons,
      List.map_cons, List.zipIdx_cons, List.takeWhile_cons_of_pos]
    · exact ⟨_, congrArg (fun line ↦ (line, 1) :: _) (lineOf_bias (Or.inl rfl) hdigits)⟩
    · show (!(lineOf ("##bias ".toList ++ digits)).isEnd) = true
      rw [show lineOf ("##bias ".toList ++ digits) = _ from lineOf_bias (Or.inl rfl) hdigits]
      rfl
  have hvalue : decimal? (String.ofList digits) = none := by
    rw [hdigits.decimal?, if_pos hlong]
  have hadd : run (Draft.add source 1 (.directive "bias" (String.ofList digits))) (Draft.start library) =
      (.error (.bias source 1 (String.ofList digits)), Draft.start library) := by
    rw [Draft.add, Draft.directive, Action.run_bind_ok (Action.run_get _)]
    simp only [hvalue, Action.run_throw]
  -- the text starts with letters that are known, and a proof by computation would read on from them
  have hresult : ∀ x : Action Unit DescriptorError Descriptor, (x ()).result = (run x ()).1 := fun _ ↦ rfl
  rw [hresult, run_parse, hbody, Action.forEach, Action.run_foldl_cons, Action.run_bind_error hadd]
  rfl

theorem numeral_power (zeros : Nat) :
    Numeral (10 ^ (zeros + 1) + 2) ('1' :: (List.replicate zeros '0' ++ ['2'])) := by
  refine ⟨List.cons_ne_nil _ _, ?_, ?_⟩
  · intro c hc
    rcases List.mem_cons.mp hc with rfl | hc
    · rfl
    · rcases List.mem_append.mp hc with hc | hc
      · rw [List.eq_of_mem_replicate hc]
        rfl
      · rw [List.mem_singleton.mp hc]
        rfl
  · have hzeros : ∀ n : Nat, (List.replicate zeros '0').foldl (fun n c ↦ n * 10 + (c.toNat - 0x30)) n =
        n * 10 ^ zeros := by
      induction zeros with
      | zero => simp
      | succ zeros ih =>
        intro n
        rw [List.replicate_succ, List.foldl_cons, ih]
        simp only [show '0'.toNat - 0x30 = 0 from rfl]
        ring
    rw [List.foldl_cons, List.foldl_append, hzeros]
    simp only [List.foldl_cons, List.foldl_nil, show '1'.toNat - 0x30 = 1 from rfl,
      show '2'.toNat - 0x30 = 2 from rfl]
    ring

/-- There are biases of functions with more digits than any limit. -/
theorem exists_long_bias (limit : Nat) :
    ∃ index digits, Numeral (30 + 6 * index) digits ∧ limit < digits.length := by
  obtain ⟨index, hindex⟩ : ∃ index, 10 ^ (limit + 2) + 2 = 30 + 6 * index := by
    induction limit with
    | zero => exact ⟨12, rfl⟩
    | succ limit ih =>
      obtain ⟨index, hindex⟩ := ih
      exact ⟨10 * index + 42, by rw [pow_succ]; omega⟩
  have hdigits := numeral_power (limit + 1)
  rw [hindex] at hdigits
  exact ⟨index, _, hdigits, by simp; omega⟩

theorem renders_bias {index : Nat} (hdigits : Numeral (30 + 6 * index) digits) :
    Renders (fun _ ↦ True) [⟨index, .of 'f' [] ⟨rfl, rfl⟩, false, []⟩]
      (String.ofList ("##bias ".toList ++ digits ++ '\n' :: "##public\nf()()\n##end".toList)) := by
  have hlines : ShortLines (fun _ ↦ True) [⟨index, .of 'f' [] ⟨rfl, rfl⟩, false, []⟩]
      ["##bias ".toList ++ digits, "##public".toList, "f()()".toList] :=
    .cons hdigits trivial (Or.inl ⟨rfl, List.forall_mem_nil _⟩) (Or.inl ⟨rfl, List.forall_mem_nil _⟩) .nil
  have hbreaks : ∀ line ∈ ["##public".toList, "f()()".toList], ∀ c ∈ line, isLineBreak c = false :=
    forall_isLineBreak (by decide +kernel)
  refine .short hlines ⟨["##bias ".toList ++ digits, "##public".toList, "f()()".toList], '#', [], ?_, ?_,
    Or.inl rfl, by simp, by simp⟩
  · exact List.forall_mem_cons.mpr ⟨isLineBreak_bias hdigits, hbreaks⟩
  · have hstrip : stripChars ("##bias ".toList ++ digits) = "##bias ".toList ++ digits :=
      Line.stripChars_number (Or.inl rfl) ['b', 'i', 'a', 's'] hdigits
    have hcode : codeLines ["##public".toList, "f()()".toList] = ["##public".toList, "f()()".toList] := by
      decide +kernel
    rw [codeLines, List.map_cons, hstrip, List.filter_cons_of_pos (by simp)]
    exact congrArg _ hcode

/-- Numbers of any length would not do. -/
theorem not_parse_rendered : ¬ ∀ (entries : List Entry) (text source : String) (library : Option String),
    (entries.map Entry.index).Nodup → Renders (fun _ ↦ True) entries text →
      ∃ descriptor, (parse text source library ()).result = .ok descriptor ∧ Lists descriptor entries := by
  intro hall
  obtain ⟨index, digits, hdigits, hlong⟩ := exists_long_bias maxDigits
  have hrenders := renders_bias hdigits
  obtain ⟨descriptor, hparse, -⟩ := hall _ _ "x_lib.fd" none (by simp) hrenders
  rw [parse_long_bias hdigits hlong] at hparse
  cases hparse

end Limits

end Readings

end Hunks.Descriptor
