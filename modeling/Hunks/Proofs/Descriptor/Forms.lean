import Mathlib
import Hunks.Descriptor.Parser
import Hunks.Proofs.Text

namespace Hunks.Descriptor

open Text

/-- A letter or an underscore, and letters, digits and underscores behind it. -/
structure Identifier where
  first : Char
  rest : List Char
  isIdentStart_first : isIdentStart first
  plain : ∀ c ∈ rest, c.toNat < 128
  isWordChar_rest : ∀ c ∈ rest, isWordChar c

/-- A register of one of the two banks. -/
inductive Register
  | address (number : Fin 8)
  | data (number : Fin 8)
  deriving DecidableEq, Repr

namespace Identifier

variable {name : Identifier} {c : Char}

def chars (name : Identifier) : List Char :=
  name.first :: name.rest

def single (h : isIdentStart c) : Identifier :=
  ⟨c, [], h, by simp, by simp⟩

def of (first : Char) (rest : List Char)
    (h : isIdentStart first ∧ rest.all fun c ↦ c.toNat < 128 ∧ isWordChar c) : Identifier where
  first
  rest
  isIdentStart_first := h.1
  plain c hc := (of_decide_eq_true (List.all_eq_true.mp h.2 c hc)).1
  isWordChar_rest c hc := (of_decide_eq_true (List.all_eq_true.mp h.2 c hc)).2

theorem plain_first (name : Identifier) : name.first.toNat < 128 := by
  have h := name.isIdentStart_first
  simp only [isIdentStart, Char.isAlpha, Char.isUpper, Char.isLower, Bool.or_eq_true, Bool.and_eq_true,
    decide_eq_true_eq, UInt32.le_iff_toNat_le] at h
  rcases h with (⟨-, h⟩ | ⟨-, h⟩) | h
  · exact lt_of_le_of_lt h (by decide)
  · exact lt_of_le_of_lt h (by decide)
  · rw [h]
    decide

theorem isWordChar_first (name : Identifier) : isWordChar name.first := by
  have h : ∀ n : Fin 128, isIdentStart (Char.ofNat n) → isWordChar (Char.ofNat n) := by decide +kernel
  exact forall_plain (P := fun c ↦ isIdentStart c → isWordChar c) h name.plain_first name.isIdentStart_first

theorem isWordChar_of_mem (hc : c ∈ name.chars) : isWordChar c := by
  rcases List.mem_cons.mp hc with rfl | hc
  · exact name.isWordChar_first
  · exact name.isWordChar_rest c hc

theorem isBlank_of_mem (hc : c ∈ name.chars) : isBlank c = false := by
  refine isBlank_eq_false_of_word ?_ (isWordChar_of_mem hc)
  rcases List.mem_cons.mp hc with rfl | hc
  · exact name.plain_first
  · exact name.plain c hc

/-- No character of an identifier is one that ends it. -/
theorem ne_of_mem (hc : c ∈ name.chars) {d : Char} (hd : isWordChar d = false) : c ≠ d := by
  rintro rfl
  exact absurd (isWordChar_of_mem hc) (by simp [hd])

/-- An identifier is read up to what ends it. -/
theorem ident?_append (name : Identifier) (rest : List Char) (h : ∀ c ∈ rest.head?, isWordChar c = false) :
    ident? (name.chars ++ rest) = some (name.chars, rest) := by
  have htake : (name.rest ++ rest).takeWhile isWordChar = name.rest := by
    rw [List.takeWhile_append_of_pos name.isWordChar_rest]
    cases rest with
    | nil => exact List.append_nil _
    | cons c rest => rw [List.takeWhile_cons_of_neg (by simp [h c rfl]), List.append_nil]
  have hdrop : (name.rest ++ rest).dropWhile isWordChar = rest := by
    rw [List.dropWhile_append_of_pos name.isWordChar_rest]
    cases rest with
    | nil => rfl
    | cons c rest => rw [List.dropWhile_cons_of_neg (by simp [h c rfl])]
  rw [chars, List.cons_append, ident?, if_pos name.isIdentStart_first, htake, hdrop]

end Identifier

namespace Register

def chars : Register → List Char
  | address number => ['A', Nat.digitChar number]
  | data number => ['D', Nat.digitChar number]

theorem isWordChar_of_mem {register : Register} {c : Char} (hc : c ∈ register.chars) : isWordChar c := by
  have hdigit : ∀ number : Fin 8, isWordChar (Nat.digitChar number) := by decide
  rcases register with number | number <;>
    rcases List.mem_pair.mp hc with rfl | rfl
  · decide
  · exact hdigit number
  · decide
  · exact hdigit number

theorem isRegister_chars (register : Register) : isRegister register.chars := by
  cases register with
  | address number => revert number; decide
  | data number => revert number; decide

end Register

section Lists

variable {α β : Type} {Form : α → List Char → Prop} {f : α → β} {g : List Char → β} {as : List α}
  {text part rest : List Char} {name : Identifier} {register : Register} {c : Char}

/-- A name with blanks around it. -/
def IsName (name : Identifier) (part : List Char) : Prop :=
  stripChars part = name.chars

/-- A register in capital or in small letters with blanks around it. -/
def IsRegister (register : Register) (part : List Char) : Prop :=
  (stripChars part).map Char.toUpper = register.chars

/-- A list that may be empty. -/
def Listed (separators : List Char) (Form : α → List Char → Prop) (as : List α) (text : List Char) : Prop :=
  as = [] ∧ (∀ c ∈ text, isBlank c) ∨ Joined separators Form as text

theorem IsName.ne_of_mem (h : IsName name part) (hc : c ∈ part) {d : Char} (hd : isWordChar d = false)
    (hblank : isBlank d = false) : c ≠ d := by
  rcases mem_or_isBlank hc with hc | hc
  · exact Identifier.ne_of_mem (h ▸ hc) hd
  · rintro rfl
    exact absurd hc (by simp [hblank])

/-- A register consists of two characters that no punctuation mark turns into. -/
theorem IsRegister.ne_of_mem (h : IsRegister register part) (hc : c ∈ part) {d : Char}
    (hd : d.toUpper = d ∧ isWordChar d = false) (hblank : isBlank d = false) : c ≠ d := by
  rcases mem_or_isBlank hc with hc | hc
  · rintro rfl
    have hmem : c ∈ register.chars := by
      rw [← h, ← hd.1]
      exact List.mem_map_of_mem hc
    exact absurd (register.isWordChar_of_mem hmem) (by simp [hd.2])
  · rintro rfl
    exact absurd hc (by simp [hblank])

/-- Parts that a list is divided into are read one by one. -/
theorem parts_of_listed {separators : List Char} {split : List Char → List (List Char)}
    {keeps : List Char → Bool}
    (hblank : ∀ text, (∀ c ∈ text, isBlank c) → split text = [text]) (hempty : keeps [] = false)
    (hsingle : ∀ a part, Form a part → split part = [part])
    (hcons : ∀ a part, Form a part → ∀ separator ∈ separators, ∀ rest,
      split (part ++ separator :: rest) = part :: split rest)
    (hform : ∀ a part, Form a part → g (stripChars part) = f a ∧ keeps (stripChars part))
    (h : Listed separators Form as text) : (((split text).map stripChars).filter keeps).map g = as.map f := by
  rcases h with ⟨rfl, h⟩ | h
  · simp [hblank text h, stripChars_eq_nil.mpr h, hempty]
  · induction h with
    | @single a part ha =>
      obtain ⟨hg, hkeeps⟩ := hform a part ha
      simp [hsingle a part ha, hkeeps, hg]
    | @cons a as part text separator ha hs _ ih =>
      obtain ⟨hg, hkeeps⟩ := hform a part ha
      rw [hcons a part ha separator hs, List.map_cons, List.filter_cons_of_pos hkeeps, List.map_cons, hg, ih]
      rfl

/-- The fields of a list are its parts without the blanks around them. -/
theorem fields_of_listed
    (hform : ∀ a part, Form a part → g (stripChars part) = f a ∧ stripChars part ≠ [] ∧
      ∀ c ∈ part, c ≠ ',' ∧ c ≠ '/')
    (h : Listed [',', '/'] Form as text) : (fields text).map g = as.map f := by
  have hwhole : ∀ part : List Char, (∀ c ∈ part, c ≠ ',' ∧ c ≠ '/') →
      ∀ c ∈ part, decide (c = ',' ∨ c = '/') = false := by
    intro part hpart c hc
    simpa using hpart c hc
  have hsplit : ∀ part : List Char, (∀ c ∈ part, c ≠ ',' ∧ c ≠ '/') →
      splitAt (fun c ↦ c = ',' ∨ c = '/') [] part = [part] := by
    intro part hpart
    have h := splitAt_append (hwhole part hpart) [] []
    rw [List.append_nil, List.append_nil, splitAt, List.reverse_reverse] at h
    exact h
  refine parts_of_listed (fun text hblank ↦ hsplit text fun c hc ↦ ?_) (by simp)
    (fun a part ha ↦ hsplit part (hform a part ha).2.2) (fun a part ha separator hs rest ↦ ?_)
    (fun a part ha ↦ ⟨(hform a part ha).1, by simpa using (hform a part ha).2.1⟩) h
  · constructor <;> rintro rfl <;> exact absurd (hblank _ hc) (by decide)
  · rw [splitAt_append (hwhole part (hform a part ha).2.2), splitAt, if_pos (by simpa using hs),
      List.append_nil, List.reverse_reverse]

theorem fields_names {names : List Identifier} (h : Listed [',', '/'] IsName names text) :
    fields text = names.map Identifier.chars := by
  refine (List.map_id _).symm.trans (fields_of_listed (g := id) ?_ h)
  refine fun name part hpart ↦ ⟨hpart, ?_, fun c hc ↦ ⟨?_, ?_⟩⟩
  · rw [show stripChars part = name.chars from hpart]
    exact List.cons_ne_nil _ _
  · exact IsName.ne_of_mem hpart hc (by decide) (by decide)
  · exact IsName.ne_of_mem hpart hc (by decide) (by decide)

theorem registers_listed {registers : List Register} (h : Listed [',', '/'] IsRegister registers text) :
    Descriptor.registers text = registers.map Register.chars := by
  have hfields := fields_of_listed (g := List.map Char.toUpper) (f := Register.chars)
    (fun register part hpart ↦ ⟨hpart, ?_, fun c hc ↦ ⟨?_, ?_⟩⟩) h
  · rw [Descriptor.registers, hfields, List.filter_eq_self]
    intro register hm
    obtain ⟨register, -, rfl⟩ := List.mem_map.mp hm
    exact register.isRegister_chars
  · intro hnil
    have hchars : [] = register.chars := by rw [← hpart, hnil]; rfl
    cases register <;> cases hchars
  · exact IsRegister.ne_of_mem hpart hc (by decide) (by decide)
  · exact IsRegister.ne_of_mem hpart hc (by decide) (by decide)

/-- What stands in no part of a list and does not separate them does not stand in the list. -/
theorem Listed.ne_of_mem {separators : List Char} (h : Listed separators Form as text) {d : Char}
    (hd : d ∉ separators) (hblank : isBlank d = false) (hform : ∀ a part, Form a part → ∀ c ∈ part, c ≠ d) :
    ∀ c ∈ text, c ≠ d := by
  rcases h with ⟨-, h⟩ | h
  · rintro c hc rfl
    exact absurd (h c hc) (by simp [hblank])
  · induction h with
    | single ha => exact hform _ _ ha
    | cons ha hs _ ih =>
      intro c hc
      rcases List.mem_append.mp hc with hc | hc
      · exact hform _ _ ha c hc
      · rcases List.mem_cons.mp hc with rfl | hc
        · exact fun hsame ↦ hd (hsame ▸ hs)
        · exact ih c hc

/-- What holds of the elements of a list can be asked of their parts. -/
theorem Listed.and_mem {separators : List Char} {P : α → Prop} (h : Listed separators Form as text)
    (hall : ∀ a ∈ as, P a) : Listed separators (fun a part ↦ P a ∧ Form a part) as text := by
  rcases h with h | h
  · exact .inl h
  · refine .inr ?_
    induction h with
    | single ha => exact .single ⟨hall _ List.mem_cons_self, ha⟩
    | cons ha hs _ ih =>
      obtain ⟨ha', has⟩ := List.forall_mem_cons.mp hall
      exact .cons ⟨ha', ha⟩ hs (ih has)

theorem Listed.ne_paren {registers : List Register} (h : Listed [',', '/'] IsRegister registers text) :
    ∀ c ∈ text, c ≠ '(' ∧ c ≠ ')' := fun c hc ↦
  ⟨h.ne_of_mem (by decide) (by decide) (fun _ _ ha _ hc ↦ ha.ne_of_mem hc (by decide) (by decide)) c hc,
    h.ne_of_mem (by decide) (by decide) (fun _ _ ha _ hc ↦ ha.ne_of_mem hc (by decide) (by decide)) c hc⟩

end Lists

section Lines

variable {type arguments registers text front rest blanks : List Char} {name : Identifier} {c : Char}

theorem isWordChar_paren (rest : List Char) : ∀ c ∈ ('(' :: rest).head?, isWordChar c = false := by
  intro c hc
  cases hc
  decide

theorem dropBlanks_paren (rest : List Char) : dropBlanks ('(' :: rest) = '(' :: rest :=
  dropBlanks_cons_of_not (by decide) rest

theorem group?_append (h : ∀ c ∈ text, c ≠ ')') (rest : List Char) :
    group? ('(' :: (text ++ ')' :: rest)) = some (text, rest) := by
  have hpos : ∀ c ∈ text, decide (c ≠ ')') = true := fun c hc ↦ by simpa using h c hc
  rw [group?, List.dropWhile_append_of_pos hpos, List.takeWhile_append_of_pos hpos,
    List.dropWhile_cons_of_neg (by decide), List.takeWhile_cons_of_neg (by decide), List.append_nil]

/-- A name with its arguments and their registers. -/
def shortLine (name : Identifier) (arguments registers : List Char) : List Char :=
  name.chars ++ '(' :: (arguments ++ ')' :: '(' :: (registers ++ [')']))

theorem shortForm?_shortLine (name : Identifier) (harguments : ∀ c ∈ arguments, c ≠ ')')
    (hregisters : ∀ c ∈ registers, c ≠ ')') :
    shortForm? (shortLine name arguments registers) = some (name.chars, arguments, registers) := by
  rw [shortForm?, shortLine, name.ident?_append _ (isWordChar_paren _)]
  simp only [Option.bind_eq_bind, Option.bind_some, dropBlanks_paren, group?_append harguments,
    group?_append hregisters]
  rfl

/-- What stands in front of a name that it declares: no list, and nothing that the name would go on from. -/
structure IsType (type : List Char) : Prop where
  plain : ∀ c ∈ type, c ≠ '(' ∧ c ≠ ')' ∧ c ≠ ','
  apart : ∃ front last, type = front ++ [last] ∧ isWordChar last = false

/-- A type that a declaration starts with. -/
structure IsReturnType (type : List Char) : Prop extends IsType type where
  starts : ∃ c rest, type = c :: rest ∧ isIdentStart c

/-- A declaration of a function with the registers behind it. -/
def longLine (type : List Char) (name : Identifier) (arguments blanks registers : List Char) : List Char :=
  type ++ (name.chars ++ '(' :: (arguments ++ [')'])) ++ blanks ++ '(' :: (registers ++ [')'])

theorem lastGroup?_append (h : ∀ c ∈ registers, c ≠ '(' ∧ c ≠ ')') (front : List Char) :
    lastGroup? (front ++ '(' :: (registers ++ [')'])) = some (front, registers) := by
  have hpos : ∀ c ∈ registers.reverse, (!isParen c) = true := by
    intro c hc
    have hne := h c (List.mem_reverse.mp hc)
    simp [isParen, hne.1, hne.2]
  have hreverse : (front ++ '(' :: (registers ++ [')'])).reverse =
      ')' :: (registers.reverse ++ '(' :: front.reverse) := by simp
  rw [lastGroup?, hreverse, dropBlanks_cons_of_not (by decide)]
  simp only
  rw [List.dropWhile_append_of_pos hpos, List.takeWhile_append_of_pos hpos,
    List.dropWhile_cons_of_neg (by decide), List.takeWhile_cons_of_neg (by decide)]
  simp

theorem call?_append (name : Identifier) (arguments : List Char) :
    call? (name.chars ++ '(' :: (arguments ++ [')'])) = some (name.chars, arguments) := by
  have hwhole : wholeGroup? ('(' :: (arguments ++ [')'])) = some arguments := by
    rw [wholeGroup?, List.reverse_append, List.reverse_singleton, List.singleton_append,
      dropBlanks_cons_of_not (by decide)]
    simp
  rw [call?, name.ident?_append _ (isWordChar_paren _)]
  simp only [Option.bind_eq_bind, Option.bind_some, dropBlanks_paren, hwhole]
  rfl

/-- A text that ends apart from words, or at once. -/
def EndsApart (text : List Char) : Prop :=
  ∀ c ∈ text.getLast?, isWordChar c = false

theorem EndsApart.of_cons {c : Char} (h : EndsApart (c :: text)) : EndsApart text := by
  intro d hd
  cases text with
  | nil => cases hd
  | cons e text => exact h d (by rwa [List.getLast?_cons_cons])

theorem IsType.endsApart (h : IsType type) : EndsApart type := by
  obtain ⟨front, last, rfl, hlast⟩ := h.apart
  intro c hc
  rw [List.getLast?_concat] at hc
  cases hc
  exact hlast

/-- A word at the start of such a text ends within it. -/
theorem EndsApart.dropWhile_append (h : EndsApart text) (hne : text ≠ []) (rest : List Char) :
    ∃ c after, c :: after <:+ text ∧ isWordChar c = false ∧ EndsApart (c :: after) ∧
      (text ++ rest).dropWhile isWordChar = c :: after ++ rest := by
  have hsplit := List.takeWhile_append_dropWhile (p := isWordChar) (l := text)
  have hhead := List.head?_dropWhile_not isWordChar text
  cases hdrop : text.dropWhile isWordChar with
  | nil =>
    have hlast := h _ (List.getLast?_eq_some_getLast hne)
    have hword := List.dropWhile_eq_nil_iff.mp hdrop _ (List.getLast_mem hne)
    exact absurd hword (by simp [hlast])
  | cons c after =>
    rw [hdrop] at hsplit hhead
    refine ⟨c, after, ⟨_, hsplit⟩, hhead, fun d hd ↦ h d ?_, ?_⟩
    · rwa [← hsplit, List.getLast?_append_of_ne_nil _ (List.cons_ne_nil c after)]
    · rw [List.dropWhile_append, hdrop]
      rfl

/-- The list of arguments does not start in front of the name. -/
theorem ne_paren_of_dropBlanks (hplain : ∀ c ∈ text, c ≠ '(') (name : Identifier) (rest : List Char) :
    ∀ c ∈ (dropBlanks (text ++ (name.chars ++ rest))).head?, c ≠ '(' := by
  induction text with
  | nil =>
    intro c hc
    have hfirst : name.first ∈ name.chars := List.mem_cons_self
    rw [List.nil_append, Identifier.chars, List.cons_append,
      dropBlanks_cons_of_not (Identifier.isBlank_of_mem hfirst)] at hc
    cases hc
    exact Identifier.ne_of_mem hfirst (by decide)
  | cons d text ih =>
    obtain ⟨hd, htext⟩ := List.forall_mem_cons.mp hplain
    intro c hc
    by_cases hblank : isBlank d
    · rw [List.cons_append, dropBlanks, List.dropWhile_cons_of_pos hblank] at hc
      exact ih htext c hc
    · rw [List.cons_append, dropBlanks_cons_of_not (by simpa using hblank)] at hc
      cases hc
      exact hd

theorem ne_paren_of_ident? (hplain : ∀ d ∈ c :: type, d ≠ '(') (hapart : EndsApart (c :: type))
    {word after : List Char} (h : ident? (c :: type ++ (name.chars ++ rest)) = some (word, after)) :
    ∀ d ∈ (dropBlanks after).head?, d ≠ '(' := by
  rw [List.cons_append, ident?] at h
  split at h <;> rename_i hstart
  · cases h
    -- the word is not all of the type, which ends apart from the name
    have hne : type ≠ [] := by
      rintro rfl
      have hword : isWordChar c := (Identifier.single hstart).isWordChar_first
      exact absurd hword (by simp [hapart c rfl])
    obtain ⟨d, after, hsuffix, -, -, hdrop⟩ := hapart.of_cons.dropWhile_append hne (name.chars ++ rest)
    rw [hdrop]
    exact ne_paren_of_dropBlanks (fun e he ↦ hplain e (List.mem_cons_of_mem _ (hsuffix.subset he))) name rest
  · cases h

theorem group?_eq_none (h : ∀ c ∈ text.head?, c ≠ '(') : group? text = none := by
  cases text with
  | nil => rfl
  | cons c text =>
    rw [group?]
    rintro _ ⟨rfl, -⟩
    exact h '(' rfl rfl

theorem wholeGroup?_eq_none (h : ∀ c ∈ text.head?, c ≠ '(') : wholeGroup? text = none := by
  cases text with
  | nil => rfl
  | cons c text =>
    rw [wholeGroup?]
    rintro _ ⟨rfl, -⟩
    exact h '(' rfl rfl

/-- A word in front of the name is not followed by arguments. -/
theorem call?_type (hplain : ∀ d ∈ c :: type, d ≠ '(') (hapart : EndsApart (c :: type)) (name : Identifier)
    (rest : List Char) : call? (c :: type ++ (name.chars ++ rest)) = none := by
  rw [call?]
  cases h : ident? (c :: type ++ (name.chars ++ rest)) with
  | none => rfl
  | some found =>
    obtain ⟨word, after⟩ := found
    have hparen := ne_paren_of_ident? hplain hapart h
    simp only [Option.bind_eq_bind, Option.bind_some, wholeGroup?_eq_none hparen, Option.bind_none]

theorem shortForm?_type (hplain : ∀ d ∈ c :: type, d ≠ '(') (hapart : EndsApart (c :: type)) (name : Identifier)
    (rest : List Char) : shortForm? (c :: type ++ (name.chars ++ rest)) = none := by
  rw [shortForm?]
  cases h : ident? (c :: type ++ (name.chars ++ rest)) with
  | none => rfl
  | some found =>
    obtain ⟨word, after⟩ := found
    have hparen := ne_paren_of_ident? hplain hapart h
    simp only [Option.bind_eq_bind, Option.bind_some, group?_eq_none hparen, Option.bind_none]

/-- The first name with arguments behind a type is the one that is declared. -/
theorem prototype?_type (hplain : ∀ d ∈ type, d ≠ '(') (hapart : EndsApart type) (name : Identifier)
    (arguments front : List Char) :
    prototype? front (type ++ (name.chars ++ '(' :: (arguments ++ [')']))) =
      some (front.reverse ++ type, name.chars, arguments) := by
  induction type generalizing front with
  | nil =>
    rw [List.nil_append, List.append_nil]
    have hcall := call?_append name arguments
    rw [Identifier.chars, List.cons_append] at hcall ⊢
    rw [prototype?, hcall]
  | cons c type ih =>
    have hcall := call?_type hplain hapart name ('(' :: (arguments ++ [')']))
    rw [List.cons_append] at hcall
    rw [List.cons_append, prototype?, hcall, ih (List.forall_mem_cons.mp hplain).2 hapart.of_cons]
    simp

/-- A declaration starts with a letter and ends with a parenthesis. -/
theorem ends_of_type (htype : IsReturnType type) (rest : List Char) :
    (∀ c ∈ (type ++ (rest ++ [')'])).head?, isBlank c = false) ∧
      ∀ c ∈ (type ++ (rest ++ [')'])).getLast?, isBlank c = false := by
  constructor
  · obtain ⟨first, more, rfl, hstart⟩ := htype.starts
    intro c hc
    cases hc
    exact (Identifier.single hstart).isBlank_of_mem List.mem_cons_self
  · intro c hc
    rw [← List.append_assoc, List.getLast?_concat] at hc
    cases hc
    decide

theorem stripChars_longLine (htype : IsReturnType type) (name : Identifier)
    (arguments blanks registers : List Char) :
    stripChars (longLine type name arguments blanks registers) =
      longLine type name arguments blanks registers := by
  have hends := ends_of_type htype (name.chars ++ '(' :: (arguments ++ [')']) ++ blanks ++ '(' :: registers)
  rw [longLine]
  refine stripChars_of_ends (fun c hc ↦ hends.1 c ?_) fun c hc ↦ hends.2 c ?_
  · simpa using hc
  · simpa using hc

theorem longForm?_longLine (htype : IsReturnType type) (name : Identifier) (arguments : List Char)
    (hblanks : ∀ c ∈ blanks, isBlank c) (hregisters : ∀ c ∈ registers, c ≠ '(' ∧ c ≠ ')') :
    longForm? (longLine type name arguments blanks registers) =
      some ((type, name.chars, arguments), registers) := by
  have hends := ends_of_type htype (name.chars ++ '(' :: arguments)
  rw [List.append_assoc, List.cons_append] at hends
  have hstrip := stripChars_pad hends.1 hends.2 (List.forall_mem_nil _) hblanks
  rw [List.nil_append] at hstrip
  rw [longForm?, longLine, lastGroup?_append hregisters]
  simp only [Option.bind_eq_bind, Option.bind_some, hstrip,
    prototype?_type (fun c hc ↦ (htype.plain c hc).1) htype.endsApart, List.reverse_nil, List.nil_append]
  rfl

theorem shortForm?_longLine (htype : IsReturnType type) (name : Identifier)
    (arguments blanks registers : List Char) :
    shortForm? (longLine type name arguments blanks registers) = none := by
  have hplain : ∀ c ∈ type, c ≠ '(' := fun c hc ↦ (htype.plain c hc).1
  have hapart := htype.endsApart
  obtain ⟨first, more, rfl, -⟩ := htype.starts
  rw [longLine, List.append_assoc, List.append_assoc, List.append_assoc]
  exact shortForm?_type hplain hapart name _

end Lines

end Hunks.Descriptor
