import Mathlib
import Hunks.Proofs.Descriptor.Forms

namespace Hunks.Descriptor

open Text

/-- A text whose parentheses match. -/
inductive Balanced : List Char → Prop
  | nil : Balanced []
  | char {c : Char} {text : List Char} : c ≠ '(' → c ≠ ')' → Balanced text → Balanced (c :: text)
  | group {inside text : List Char} : Balanced inside → Balanced text →
    Balanced ('(' :: (inside ++ ')' :: text))

/-- A text that is not divided where it stands among arguments. -/
def Whole (text : List Char) : Prop :=
  ∀ part rest, splitArgsFrom 0 part (text ++ rest) = splitArgsFrom 0 (text.reverse ++ part) rest

/-- How many parentheses are open behind a text; fewer than none where it closed more than it opened. -/
def nesting (text : List Char) : Int :=
  text.count '(' - text.count ')'

/-- An argument that can be told from its neighbours: no blanks at its ends, matching parentheses, and
commas within them only. -/
structure IsArgument (text : List Char) : Prop where
  first : ∀ c ∈ text.head?, isBlank c = false
  last : ∀ c ∈ text.getLast?, isBlank c = false
  ne_nil : text ≠ []
  ne_void : text ≠ "void".toList
  nesting_nonneg : ∀ front, front <+: text → 0 ≤ nesting front
  nesting_eq_zero : nesting text = 0
  comma : ∀ front, front ++ [','] <+: text → nesting front ≠ 0

/-- A text with blanks around it. -/
def IsPadded (text part : List Char) : Prop :=
  ∃ before after : List Char, (∀ c ∈ before, isBlank c) ∧ (∀ c ∈ after, isBlank c) ∧
    part = before ++ text ++ after

/-- The declaration of an argument: a type and the name, or a pointer to a function. -/
inductive Declares (name : Identifier) : List Char → Prop
  | plain {type : List Char} : IsType type → Declares name (type ++ name.chars)
  | pointer {type types : List Char} : IsType type → Balanced types →
    Declares name (type ++ '(' :: '*' :: (name.chars ++ ')' :: '(' :: (types ++ [')'])))

/-- A declaration with blanks around it. -/
def IsDeclaration (name : Identifier) (part : List Char) : Prop :=
  Declares name (stripChars part)

variable {text more inside type part : List Char} {name : Identifier} {c : Char}

section Division

theorem splitArgsFrom_plain {depth : Int} (hc : c ≠ '(' ∧ c ≠ ')') (hcomma : c = ',' → depth ≠ 0)
    (part rest : List Char) : splitArgsFrom depth part (c :: rest) = splitArgsFrom depth (c :: part) rest := by
  rw [splitArgsFrom, if_neg fun h ↦ hcomma h.1 h.2, if_neg hc.1, if_neg hc.2]

theorem splitArgsFrom_open (depth : Int) (part rest : List Char) :
    splitArgsFrom depth part ('(' :: rest) = splitArgsFrom (depth + 1) ('(' :: part) rest :=
  rfl

theorem splitArgsFrom_close (depth : Int) (part rest : List Char) :
    splitArgsFrom depth part (')' :: rest) = splitArgsFrom (depth - 1) (')' :: part) rest :=
  rfl

/-- Nothing is divided within parentheses. -/
theorem Balanced.splitArgsFrom (h : Balanced text) {depth : Int} (hdepth : 0 < depth) (part rest : List Char) :
    splitArgsFrom depth part (text ++ rest) = splitArgsFrom depth (text.reverse ++ part) rest := by
  -- the depth stays positive throughout: a group within goes one deeper and comes back
  induction h generalizing depth part rest with
  | nil => rfl
  | char hopen hclose _ ih =>
    rw [List.cons_append, splitArgsFrom_plain ⟨hopen, hclose⟩ (fun _ ↦ by omega), ih hdepth]
    simp
  | group _ _ hinside htext =>
    rw [List.cons_append, List.append_assoc, List.cons_append, splitArgsFrom_open, hinside (by omega),
      splitArgsFrom_close, Int.add_sub_cancel, htext hdepth]
    simp

theorem Whole.append (h : Whole text) (hmore : Whole more) : Whole (text ++ more) := by
  intro part rest
  rw [List.append_assoc, h, hmore, List.reverse_append, List.append_assoc]

theorem nesting_cons (c : Char) (text : List Char) : nesting (c :: text) = nesting [c] + nesting text := by
  simp only [nesting, List.count_cons, List.count_nil]
  omega

theorem nesting_singleton (c : Char) :
    nesting [c] = if c = '(' then 1 else if c = ')' then -1 else 0 := by
  by_cases hopen : c = '('
  · subst hopen
    rfl
  · by_cases hclose : c = ')'
    · subst hclose
      rfl
    · simp [nesting, hopen, hclose]

/-- A character that does not divide. -/
theorem splitArgsFrom_cons {depth : Int} (h : ¬ (c = ',' ∧ depth = 0)) (part rest : List Char) :
    splitArgsFrom depth part (c :: rest) = splitArgsFrom (depth + nesting [c]) (c :: part) rest := by
  have hdepth : (if c = '(' then depth + 1 else if c = ')' then depth - 1 else depth) =
      depth + nesting [c] := by
    rw [nesting_singleton]
    split_ifs <;> omega
  rw [splitArgsFrom, if_neg h, hdepth]

/-- A text is not divided if no comma in it comes at the depth zero. -/
theorem splitArgsFrom_append {depth : Int}
    (h : ∀ front, front ++ [','] <+: text → depth + nesting front ≠ 0) (part rest : List Char) :
    splitArgsFrom depth part (text ++ rest) =
      splitArgsFrom (depth + nesting text) (text.reverse ++ part) rest := by
  -- the depth behind a character is the one in front of the text and the nesting up to there
  induction text generalizing depth part with
  | nil => simp [nesting]
  | cons c text ih =>
    have hcomma : ¬ (c = ',' ∧ depth = 0) := by
      rintro ⟨rfl, rfl⟩
      exact h [] ⟨text, rfl⟩ rfl
    have htext : ∀ front, front ++ [','] <+: text → depth + nesting [c] + nesting front ≠ 0 := by
      intro front hfront
      rw [Int.add_assoc, ← nesting_cons]
      exact h (c :: front) (List.cons_prefix_cons.mpr ⟨rfl, hfront⟩)
    rw [List.cons_append, splitArgsFrom_cons hcomma, ih htext, Int.add_assoc, ← nesting_cons]
    simp

theorem whole_of_nesting (hzero : nesting text = 0)
    (hcomma : ∀ front, front ++ [','] <+: text → nesting front ≠ 0) : Whole text := by
  intro part rest
  rw [splitArgsFrom_append (by simpa using hcomma), hzero]
  rfl

theorem whole_of_plain (h : ∀ c ∈ text, c ≠ '(' ∧ c ≠ ')' ∧ c ≠ ',') : Whole text := by
  refine whole_of_nesting ?_ fun front hfront ↦ ?_
  · rw [nesting, List.count_eq_zero.mpr fun hc ↦ (h _ hc).1 rfl,
      List.count_eq_zero.mpr fun hc ↦ (h _ hc).2.1 rfl]
    rfl
  · exact absurd rfl (h ',' (hfront.subset (by simp))).2.2

theorem whole_of_blank (h : ∀ c ∈ text, isBlank c) : Whole text := by
  refine whole_of_plain fun c hc ↦ ⟨?_, ?_, ?_⟩ <;> rintro rfl <;> exact absurd (h _ hc) (by decide)

theorem whole_name (name : Identifier) : Whole name.chars :=
  whole_of_plain fun _ hc ↦ ⟨Identifier.ne_of_mem hc (by decide), Identifier.ne_of_mem hc (by decide),
    Identifier.ne_of_mem hc (by decide)⟩

theorem Balanced.whole_group (h : Balanced inside) : Whole ('(' :: (inside ++ [')'])) := by
  intro part rest
  rw [List.cons_append, List.append_assoc, List.singleton_append, splitArgsFrom_open,
    h.splitArgsFrom (by omega), splitArgsFrom_close]
  simp

theorem Balanced.of_plain (h : ∀ c ∈ text, c ≠ '(' ∧ c ≠ ')') : Balanced text := by
  induction text with
  | nil => exact .nil
  | cons c text ih =>
    obtain ⟨hc, htext⟩ := List.forall_mem_cons.mp h
    exact .char hc.1 hc.2 (ih htext)

theorem Whole.splitArgsFrom_nil (h : Whole text) : splitArgsFrom 0 [] text = [text] := by
  have hall := h [] []
  rw [List.append_nil, List.append_nil, splitArgsFrom, List.reverse_reverse] at hall
  exact hall

theorem Whole.splitArgsFrom_comma (h : Whole text) (rest : List Char) :
    splitArgsFrom 0 [] (text ++ ',' :: rest) = text :: splitArgsFrom 0 [] rest := by
  rw [h, List.append_nil, splitArgsFrom, if_pos ⟨rfl, rfl⟩, List.reverse_reverse]

end Division

namespace Declares

theorem whole (h : Declares name text) : Whole text := by
  cases h with
  | plain htype => exact (whole_of_plain htype.plain).append (whole_name name)
  | @pointer type types htype htypes =>
    have hpointer : Balanced ('*' :: name.chars) := Balanced.of_plain fun c hc ↦ by
      rcases List.mem_cons.mp hc with rfl | hc
      · decide
      · exact ⟨Identifier.ne_of_mem hc (by decide), Identifier.ne_of_mem hc (by decide)⟩
    have hall := (whole_of_plain htype.plain).append (hpointer.whole_group.append htypes.whole_group)
    simpa using hall

/-- There are words in a declaration and something else. -/
theorem exists_mem (h : Declares name text) :
    (∃ c ∈ text, isWordChar c) ∧ ∃ c ∈ text, isWordChar c = false := by
  have hfirst : name.first ∈ name.chars := List.mem_cons_self
  have htype : ∀ {type : List Char}, IsType type → ∃ c ∈ type, isWordChar c = false := by
    intro type htype
    obtain ⟨front, last, rfl, hlast⟩ := htype.apart
    exact ⟨last, by simp, hlast⟩
  cases h with
  | plain h =>
    obtain ⟨c, hc, hword⟩ := htype h
    exact ⟨⟨name.first, by simp [hfirst], name.isWordChar_first⟩, c, by simp [hc], hword⟩
  | pointer h _ =>
    obtain ⟨c, hc, hword⟩ := htype h
    exact ⟨⟨name.first, by simp [hfirst], name.isWordChar_first⟩, c, by simp [hc], hword⟩

theorem ne_void (h : Declares name text) : text ≠ [] ∧ text ≠ "void".toList := by
  obtain ⟨-, c, hc, hword⟩ := h.exists_mem
  refine ⟨List.ne_nil_of_mem hc, ?_⟩
  rintro rfl
  have hvoid : "void".toList.all isWordChar := by rfl
  exact absurd (List.all_eq_true.mp hvoid c hc) (by simp [hword])

theorem ne_dots (h : Declares name text) : text ≠ "...".toList := by
  obtain ⟨⟨c, hc, hword⟩, -⟩ := h.exists_mem
  rintro rfl
  have hdots : "...".toList.all (!isWordChar ·) := by rfl
  exact absurd (List.all_eq_true.mp hdots c hc) (by simp [hword])

end Declares

section Names

theorem functionPointer?_of_plain (h : ∀ c ∈ text, c ≠ '(') : functionPointer? text = none := by
  induction text with
  | nil => rfl
  | cons c text ih =>
    obtain ⟨hc, htext⟩ := List.forall_mem_cons.mp h
    have hname : pointerName? (c :: text) = none := by
      rw [pointerName?]
      exact fun _ h ↦ hc (List.cons.inj h).1
    rw [functionPointer?, hname]
    exact ih htext

/-- The pointer behind a type is the first one. -/
theorem functionPointer?_append (h : ∀ c ∈ type, c ≠ '(') (name : Identifier) (rest : List Char) :
    functionPointer? (type ++ '(' :: '*' :: (name.chars ++ ')' :: rest)) = some name.chars := by
  induction type with
  | nil =>
    have hfirst : isBlank name.first = false := Identifier.isBlank_of_mem List.mem_cons_self
    have hident := name.ident?_append (')' :: rest) (by simp [show isWordChar ')' = false by decide])
    have hname : pointerName? ('(' :: '*' :: (name.chars ++ ')' :: rest)) = some name.chars := by
      rw [pointerName?, dropBlanks_cons_of_not (by decide)]
      simp only
      rw [dropBlanks_of_head (by simp [Identifier.chars, hfirst]), hident, Option.bind_eq_bind,
        Option.bind_some]
      simp only
      rw [dropBlanks_cons_of_not (by decide)]
      rfl
    rw [List.nil_append, functionPointer?, hname]
  | cons c type ih =>
    obtain ⟨hc, htype⟩ := List.forall_mem_cons.mp h
    have hname : pointerName? (c :: type ++ '(' :: '*' :: (name.chars ++ ')' :: rest)) = none := by
      rw [List.cons_append, pointerName?]
      exact fun _ h ↦ hc (List.cons.inj h).1
    rw [List.cons_append] at hname ⊢
    rw [functionPointer?, hname]
    exact ih htype

/-- The words of the type are found first. -/
theorem identsFrom_append (h : EndsApart type) (name : Identifier) {fuel : Nat}
    (hfuel : type.length + name.chars.length ≤ fuel) (front : List Char)
    (found : List (List Char × List Char)) :
    ∃ before more, identsFrom fuel front (type ++ name.chars) found = (before, name.chars) :: more := by
  -- a word of the type ends within the type, so that what is left of it ends apart from the name again
  induction fuel generalizing type front found with
  | zero => simp [Identifier.chars] at hfuel
  | succ fuel ih =>
    cases type with
    | nil =>
      have hident := name.ident?_append [] (by simp)
      rw [List.append_nil, Identifier.chars] at hident
      refine ⟨front.reverse, found, ?_⟩
      rw [List.nil_append, Identifier.chars, identsFrom, hident]
      cases fuel <;> rfl
    | cons c type =>
      rw [List.cons_append, identsFrom]
      simp only [List.length_cons] at hfuel
      split <;> rename_i hident
      · rename_i word after
        rw [ident?] at hident
        split at hident <;> rename_i hstart
        · cases hident
          have hne : type ≠ [] := by
            rintro rfl
            have hword : isWordChar c := (Identifier.single hstart).isWordChar_first
            exact absurd hword (by simp [h c rfl])
          obtain ⟨d, after, hsuffix, -, hapart, hdrop⟩ := h.of_cons.dropWhile_append hne name.chars
          rw [hdrop]
          have hlength := hsuffix.length_le
          exact ih hapart (by omega) _ _
        · cases hident
      · exact ih h.of_cons (by omega) _ _

/-- The name that a declaration declares. -/
theorem Declares.argument (h : Declares name text) : (Descriptor.argument text).1 = name.chars := by
  have hdots := h.ne_dots
  rw [Descriptor.argument]
  cases h with
  | @plain type htype =>
    have hpointer : functionPointer? (type ++ name.chars) = none := by
      refine functionPointer?_of_plain fun c hc ↦ ?_
      rcases List.mem_append.mp hc with hc | hc
      · exact (htype.plain c hc).1
      · exact Identifier.ne_of_mem hc (by decide)
    obtain ⟨before, more, hfound⟩ := identsFrom_append htype.endsApart name
      (List.length_append ▸ le_rfl : _ ≤ (type ++ name.chars).length) [] []
    simp only [hpointer, lastIdent?, hfound, List.head?_cons]
    rw [if_neg hdots]
  | pointer htype _ =>
    rw [functionPointer?_append (fun c hc ↦ (htype.plain c hc).1)]

theorem Whole.pad (h : Whole text) {before after : List Char} (hbefore : ∀ c ∈ before, isBlank c)
    (hafter : ∀ c ∈ after, isBlank c) : Whole (before ++ text ++ after) :=
  ((whole_of_blank hbefore).append h).append (whole_of_blank hafter)

/-- Arguments that are not divided themselves are divided from each other. -/
theorem splitArgs_of_listed {α β : Type} {Form : α → List Char → Prop} {f : α → β} {g : List Char → β}
    {as : List α}
    (hform : ∀ a part, Form a part → Whole part ∧ g (stripChars part) = f a ∧
      stripChars part ≠ [] ∧ stripChars part ≠ "void".toList)
    (h : Listed [','] Form as text) : (splitArgs text).map g = as.map f := by
  refine parts_of_listed (fun text hblank ↦ (whole_of_blank hblank).splitArgsFrom_nil) (by decide)
    (fun a part ha ↦ (hform a part ha).1.splitArgsFrom_nil) (fun a part ha separator hs rest ↦ ?_)
    (fun a part ha ↦ ?_) h
  · rw [List.mem_singleton.mp hs]
    exact (hform a part ha).1.splitArgsFrom_comma rest
  · obtain ⟨-, hg, hkept⟩ := hform a part ha
    exact ⟨hg, by simpa using hkept⟩

/-- The arguments of a function are read one by one, whatever stands in the parentheses of their types. -/
theorem splitArgs_listed {names : List Identifier} (h : Listed [','] IsDeclaration names text) :
    ((splitArgs text).map fun declaration ↦ (Descriptor.argument declaration).1) =
      names.map Identifier.chars := by
  refine splitArgs_of_listed (fun name part hpart ↦ ⟨?_, hpart.argument, hpart.ne_void⟩) h
  obtain ⟨before, after, hbefore, hafter, htext⟩ := exists_pad part
  rw [htext]
  exact hpart.whole.pad hbefore hafter

end Names

section Joined

theorem isArgument_iff : IsArgument text ↔ text.head?.all (!isBlank ·) ∧ text.getLast?.all (!isBlank ·) ∧
    text ≠ [] ∧ text ≠ "void".toList ∧
    (∀ front ∈ text.inits, 0 ≤ nesting front) ∧ nesting text = 0 ∧
    ∀ front ∈ text.inits, front ++ [','] ∈ text.inits → nesting front ≠ 0 := by
  simp only [List.mem_inits, Option.all_eq_true, Bool.not_eq_true']
  constructor
  · intro h
    exact ⟨h.first, h.last, h.ne_nil, h.ne_void, h.nesting_nonneg, h.nesting_eq_zero,
      fun front _ ↦ h.comma front⟩
  · rintro ⟨hfirst, hlast, hnil, hvoid, hnonneg, hzero, hcomma⟩
    exact ⟨hfirst, hlast, hnil, hvoid, hnonneg, hzero,
      fun front h ↦ hcomma front ((List.prefix_append front [',']).trans h) h⟩

instance : DecidablePred IsArgument := fun _ ↦ decidable_of_iff _ isArgument_iff.symm

/-- Arguments that are joined with commas and blanks around them come apart again as they were. -/
theorem splitArgs_joined {arguments : List (List Char)}
    (harguments : ∀ argument ∈ arguments, IsArgument argument)
    (h : Listed [','] IsPadded arguments text) : splitArgs text = arguments := by
  have hparts : (splitArgs text).map id = arguments.map id := by
    refine splitArgs_of_listed (fun argument part ↦ ?_) (h.and_mem harguments)
    rintro ⟨hargument, before, after, hbefore, hafter, rfl⟩
    have hstrip : stripChars (before ++ argument ++ after) = argument :=
      stripChars_pad hargument.first hargument.last hbefore hafter
    have hwhole : Whole argument := whole_of_nesting hargument.nesting_eq_zero hargument.comma
    rw [hstrip]
    exact ⟨hwhole.pad hbefore hafter, rfl, hargument.ne_nil, hargument.ne_void⟩
  simpa using hparts

def sampleArguments : List (List Char) :=
  ["int a".toList, "void (*f)(int, int)".toList, "char *b".toList]

theorem splitArgs_joined_sample :
    (∀ argument ∈ sampleArguments, IsArgument argument) ∧
      Listed [','] IsPadded sampleArguments "int a, void (*f)(int, int)\t,char *b".toList ∧
      splitArgs "int a, void (*f)(int, int)\t,char *b".toList = sampleArguments := by
  have harguments : ∀ argument ∈ sampleArguments, IsArgument argument := by decide +kernel
  have hint : IsPadded "int a".toList "int a".toList := ⟨[], [], by simp, by simp, rfl⟩
  have hpointer : IsPadded "void (*f)(int, int)".toList " void (*f)(int, int)\t".toList :=
    ⟨[' '], ['\t'], List.all_eq_true.mp rfl, List.all_eq_true.mp rfl, rfl⟩
  have hchar : IsPadded "char *b".toList "char *b".toList := ⟨[], [], by simp, by simp, rfl⟩
  have hjoined : Listed [','] IsPadded sampleArguments "int a, void (*f)(int, int)\t,char *b".toList :=
    .inr (.cons hint List.mem_cons_self (.cons hpointer List.mem_cons_self (.single hchar)))
  exact ⟨harguments, hjoined, splitArgs_joined harguments hjoined⟩

end Joined

end Hunks.Descriptor
