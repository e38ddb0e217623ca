import Mathlib
import Hunks.Proofs.Descriptor.Arguments
import Hunks.Proofs.Descriptor.Lines

namespace Hunks.Descriptor

open Hunks.Action (run)
open Text

namespace Line

variable {word value line : List Char} {mark : Char}

theorem ofString_stripChars (line : List Char) :
    ofString (String.ofList (stripChars line)) = ofString (String.ofList line) := by
  rw [ofString, ofString, String.toList_ofList, String.toList_ofList, stripChars_stripChars]

/-- The first word of a directive and what follows it. -/
theorem ofDirective_append (hne : word ≠ []) (hword : ∀ c ∈ word, isBlank c = false)
    (hvalue : ∀ c ∈ value.head?, isBlank c) :
    ofDirective (word ++ value) =
      directive (lower (String.ofList word)) (String.ofList (stripChars value)) := by
  have hpos : ∀ c ∈ word, (!isBlank c) = true := fun c hc ↦ by simp [hword c hc]
  have hfirst : dropBlanks (word ++ value) = word ++ value := by
    refine dropBlanks_of_head fun c hc ↦ hword c ?_
    rw [List.head?_append_of_ne_nil _ hne] at hc
    exact List.mem_of_mem_head? hc
  have htake : value.takeWhile (!isBlank ·) = [] := by
    cases value with
    | nil => rfl
    | cons c value => exact List.takeWhile_cons_of_neg (by simp [hvalue c rfl])
  have hdrop : value.dropWhile (!isBlank ·) = value := by
    cases value with
    | nil => rfl
    | cons c value => exact List.dropWhile_cons_of_neg (by simp [hvalue c rfl])
  rw [ofDirective, hfirst, List.takeWhile_append_of_pos hpos, List.dropWhile_append_of_pos hpos, htake, hdrop,
    List.append_nil]

theorem ofString_of_mark (hmark : mark = '#' ∨ mark = '=') (hline : stripChars line = mark :: mark :: value) :
    ofString (String.ofList line) = ofDirective value := by
  rw [ofString, String.toList_ofList, hline]
  rcases hmark with rfl | rfl <;> rfl

/-- A number has no blanks that would be stripped. -/
theorem stripChars_number {n : Nat} {digits : List Char} (hmark : mark = '#' ∨ mark = '=') (word : List Char)
    (hdigits : Numeral n digits) :
    stripChars (mark :: mark :: (word ++ ' ' :: digits)) = mark :: mark :: (word ++ ' ' :: digits) := by
  refine stripChars_of_ends (fun c hc ↦ ?_) fun c hc ↦ ?_
  · cases hc
    rcases hmark with rfl | rfl <;> decide
  · rw [show mark :: mark :: (word ++ ' ' :: digits) = (mark :: mark :: (word ++ [' '])) ++ digits by simp,
      List.getLast?_append_of_ne_nil _ hdigits.ne_nil] at hc
    exact (of_isDigit (hdigits.isDigit c (List.mem_of_mem_getLast? hc))).1

theorem ofString_number {n : Nat} {digits : List Char} (hmark : mark = '#' ∨ mark = '=') (hne : word ≠ [])
    (hword : ∀ c ∈ word, isBlank c = false) (hdigits : Numeral n digits) :
    ofString (String.ofList (mark :: mark :: (word ++ ' ' :: digits))) =
      directive (lower (String.ofList word)) (String.ofList digits) := by
  have hblank : ∀ c ∈ digits, isBlank c = false := fun c hc ↦ (of_isDigit (hdigits.isDigit c hc)).1
  have hspace : ∀ c ∈ [' '], isBlank c := fun c hc ↦ by
    rw [List.mem_singleton.mp hc]
    decide
  have hvalue := stripChars_pad (fun c hc ↦ hblank c (List.mem_of_mem_head? hc))
    (fun c hc ↦ hblank c (List.mem_of_mem_getLast? hc)) hspace (List.forall_mem_nil _)
  rw [List.append_nil, List.singleton_append] at hvalue
  rw [ofString_of_mark hmark (stripChars_number hmark word hdigits),
    ofDirective_append hne hword (fun c hc ↦ hspace c (by cases hc; simp)), hvalue]

theorem ofString_function (hline : stripChars line = line)
    (hstart : ∃ c rest, line = c :: rest ∧ isIdentStart c) :
    ofString (String.ofList line) = function (String.ofList line) := by
  obtain ⟨c, rest, rfl, hc⟩ := hstart
  rw [ofString, String.toList_ofList, hline]
  split <;> rename_i h
  · cases h
  · cases h
    exact absurd hc (by decide)
  · cases h
    exact absurd hc (by decide)
  · cases h
    exact absurd hc (by decide)
  · rfl

/-- What follows the end directive on its line does not count. -/
theorem isEnd_ofString {after : List Char} (hmark : mark = '#' ∨ mark = '=')
    (hafter : ∀ c ∈ after.head?, isBlank c) :
    (ofString (String.ofList (mark :: mark :: (['e', 'n', 'd'] ++ after)))).isEnd := by
  have hmarked : isBlank mark = false := by rcases hmark with rfl | rfl <;> decide
  have hlast : ∀ c ∈ (mark :: mark :: ['e', 'n', 'd']).getLast?, isBlank c = false := by
    intro c hc
    obtain rfl : 'd' = c := by simpa using hc
    decide
  obtain ⟨kept, hkept, hstrip⟩ := stripChars_append (List.cons_ne_nil _ _)
    (fun c hc ↦ by cases hc; exact hmarked) hlast after
  have hstrip : stripChars (mark :: mark :: (['e', 'n', 'd'] ++ after)) =
      mark :: mark :: (['e', 'n', 'd'] ++ kept) := hstrip
  have hhead : ∀ c ∈ kept.head?, isBlank c := by
    intro c hc
    cases kept with
    | nil => cases hc
    | cons d kept =>
      obtain ⟨rest, rfl⟩ := hkept
      exact hafter c hc
  have hword : ∀ c ∈ ['e', 'n', 'd'], isBlank c = false := by
    simp [isBlank, inRanges, blankBounds]
  have hlower : lower (String.ofList ['e', 'n', 'd']) = "end" := by decide +kernel
  rw [ofString_of_mark hmark hstrip, ofDirective_append (List.cons_ne_nil _ _) hword hhead, hlower]
  rfl

end Line

namespace Draft

variable {draft draft' middle : Draft} {line : Line} {lines : List Line} {value : String}

/-- A line in front of the end directive that takes a draft to another one. -/
structure Takes (line : Line) (draft draft' : Draft) : Prop where
  isEnd : line.isEnd = false
  run_add : ∀ source number, run (add source number line) draft = (.ok (), draft')

/-- Lines that take a draft to another one. -/
inductive Reads : List Line → Draft → Draft → Prop
  | nil {draft : Draft} : Reads [] draft draft
  | cons {line : Line} {lines : List Line} {draft middle draft' : Draft} : Takes line draft middle →
    Reads lines middle draft' → Reads (line :: lines) draft draft'

theorem takes_comment (draft : Draft) : Takes .comment draft draft :=
  ⟨rfl, fun _ _ ↦ rfl⟩

theorem takes_bias {bias : Int} (h : decimal? value = some bias) (draft : Draft) :
    Takes (.directive "bias" value) draft { draft with bias } := by
  refine ⟨rfl, fun source number ↦ ?_⟩
  rw [add, directive, Action.run_bind_ok (Action.run_get _)]
  simp only [h, Action.run_set]

theorem takes_reserve {count : Int} (h : (if value = "" then some 1 else decimal? value) = some count)
    (draft : Draft) :
    Takes (.directive "reserve" value) draft { draft with bias := draft.bias + count * vectorSize } := by
  refine ⟨rfl, fun source number ↦ ?_⟩
  rw [add, directive, Action.run_bind_ok (Action.run_get _)]
  simp only [h, Action.run_set]

theorem takes_visibility (isPrivate : Bool) (draft : Draft) :
    Takes (.directive (if isPrivate then "private" else "public") "") draft { draft with isPrivate } := by
  cases isPrivate with
  | false => exact ⟨rfl, fun _ _ ↦ rfl⟩
  | true => exact ⟨rfl, fun _ _ ↦ rfl⟩

theorem takes_alias {word : String} (hword : word = "alias" ∨ word = "varargs") (draft : Draft) :
    Takes (.directive word "") draft { draft with isAlias := true } := by
  rcases hword with rfl | rfl
  · exact ⟨rfl, fun _ _ ↦ rfl⟩
  · exact ⟨rfl, fun _ _ ↦ rfl⟩

/-- The name, the arguments and the type of a function that a line declares. -/
def Tells (text : List Char) (name : List Char) (arguments : List Argument)
    (returnType : Option String) : Prop :=
  ∀ source number draft, run (prototype source number (String.ofList text)) draft =
    (.ok (String.ofList name, arguments, returnType), draft)

variable {text name : List Char} {arguments : List Argument} {returnType : Option String}

/-- A draft with one more function. -/
def declare (draft : Draft) (function : Prototype) : Draft :=
  { draft with bias := draft.bias + vectorSize, functions := draft.functions.push function }

theorem takes_function (h : Tells text name arguments returnType) (halias : draft.isAlias = false) :
    Takes (.function (String.ofList text)) draft
      (draft.declare ⟨String.ofList name, arguments, draft.bias, draft.isPrivate, returnType⟩) := by
  refine ⟨rfl, fun source number ↦ ?_⟩
  rw [add, function, Action.run_bind_ok (h source number draft), Action.run_bind_ok (Action.run_get _),
    if_neg (by simp [halias])]
  rfl

theorem takes_alias_function (h : Tells text name arguments returnType) (halias : draft.isAlias) :
    Takes (.function (String.ofList text)) draft { draft with isAlias := false } := by
  refine ⟨rfl, fun source number ↦ ?_⟩
  rw [add, function, Action.run_bind_ok (h source number draft), Action.run_bind_ok (Action.run_get _),
    if_pos halias]
  rfl

namespace Reads

theorem isEnd (h : Reads lines draft draft') : ∀ line ∈ lines, line.isEnd = false := by
  induction h with
  | nil => simp
  | cons htakes _ ih => exact List.forall_mem_cons.mpr ⟨htakes.isEnd, ih⟩

theorem run_forEach {source : String} (h : Reads lines draft draft') (number : Nat) :
    run (Action.forEach (lines.zipIdx number) fun (line, number) ↦ add source number line) draft =
      (.ok (), draft') := by
  induction h generalizing number with
  | nil => rfl
  | cons htakes _ ih =>
    rw [List.zipIdx_cons, Action.forEach, Action.run_foldl_cons,
      Action.run_bind_ok (htakes.run_add source number)]
    exact ih (number + 1)

end Reads

end Draft

/-- The lines that are neither blank nor comments, without the blanks around them. -/
def codeLines (lines : List (List Char)) : List (List Char) :=
  (lines.map stripChars).filter fun line ↦ line ≠ [] ∧ line.head? ≠ some '*'

variable {lines : List (List Char)} {draft draft' : Draft} {text : String}

def lineOf (line : List Char) : Line :=
  Line.ofString (String.ofList line)

theorem lineOf_of_not_code {line : List Char} (h : stripChars line = [] ∨ (stripChars line).head? = some '*') :
    lineOf line = .comment := by
  rw [lineOf, Line.ofString, String.toList_ofList]
  rcases h with h | h
  · rw [h]
  · obtain ⟨rest, hrest⟩ := List.head?_eq_some_iff.mp h
    rw [hrest]
    rfl

/-- Blank lines and comments change nothing. -/
theorem Draft.Reads.of_codeLines (h : Draft.Reads ((codeLines lines).map lineOf) draft draft') :
    Draft.Reads (lines.map lineOf) draft draft' := by
  induction lines generalizing draft with
  | nil => exact h
  | cons line lines ih =>
    rw [codeLines, List.map_cons, List.filter_cons] at h
    split at h <;> rename_i hcode
    · rw [List.map_cons, lineOf, Line.ofString_stripChars] at h
      cases h with
      | cons htakes hrest => exact .cons htakes (ih hrest)
    · rw [List.map_cons, lineOf_of_not_code (by simpa [or_iff_not_imp_left] using hcode)]
      exact .cons (Draft.takes_comment draft) (ih h)

/-- A text whose lines up to an end directive are these, but for blank lines and comments. -/
structure Consists (text : String) (code : List (List Char)) : Prop where
  exists_lines : ∃ (lines : List (List Char)) (mark : Char) (after : List Char),
    (∀ line ∈ lines, ∀ c ∈ line, isLineBreak c = false) ∧ codeLines lines = code ∧ (mark = '#' ∨ mark = '=') ∧
      (∀ c ∈ after.head?, isBlank c) ∧
      text.toList = lines.flatMap (· ++ ['\n']) ++ mark :: mark :: ("end".toList ++ after)

theorem linesFrom_flatMap (h : ∀ line ∈ lines, ∀ c ∈ line, isLineBreak c = false) (rest : List Char) :
    linesFrom [] (lines.flatMap (· ++ ['\n']) ++ rest) = lines ++ linesFrom [] rest := by
  induction lines with
  | nil => rfl
  | cons line lines ih =>
    obtain ⟨hline, hlines⟩ := List.forall_mem_cons.mp h
    rw [List.flatMap_cons, List.append_assoc, List.append_assoc, List.singleton_append, linesFrom_line hline,
      ih hlines, List.cons_append]

/-- The line of an end directive is one whatever follows it. -/
theorem linesFrom_end {mark : Char} {after : List Char} (hmark : mark = '#' ∨ mark = '=')
    (hafter : ∀ c ∈ after.head?, isBlank c) :
    ∃ line more, linesFrom [] (mark :: mark :: (['e', 'n', 'd'] ++ after)) = line :: more ∧ (lineOf line).isEnd := by
  have hmarker : ∀ c ∈ mark :: mark :: ['e', 'n', 'd'], isLineBreak c = false := by
    rcases hmark with rfl | rfl <;> simp [isLineBreak]
  have hne : (mark :: mark :: ['e', 'n', 'd']).reverse ≠ [] := by simp
  have happend := linesFrom_append hmarker [] after
  obtain ⟨more, hmore⟩ := linesFrom_first hne after
  rw [List.append_nil, hmore, List.reverse_reverse] at happend
  refine ⟨_, more, happend, Line.isEnd_ofString hmark fun c hc ↦ hafter c ?_⟩
  cases after with
  | nil => cases hc
  | cons d after =>
    rw [List.takeWhile_cons] at hc
    split at hc
    · exact hc
    · cases hc

/-- A text is read up to its end directive. -/
theorem Consists.parse {code : List (List Char)} (h : Consists text code) {source : String}
    {library : Option String} (hreads : Draft.Reads (code.map lineOf) (Draft.start library) draft) :
    (Descriptor.parse text source library ()).result = .ok (draft.finish source) := by
  obtain ⟨lines, mark, after, hlines, rfl, hmark, hafter, htext⟩ := h.exists_lines
  rw [show "end".toList = ['e', 'n', 'd'] from rfl] at htext
  have hall := hreads.of_codeLines
  obtain ⟨line, more, hmore, hend⟩ := linesFrom_end hmark hafter
  -- no line in front of the end directive is one, and the rest of the text does not count
  have hbody : body text = (lines.map lineOf).zipIdx 1 := by
    rw [body, Text.lines, htext, linesFrom_flatMap hlines, hmore, List.map_map, List.map_append, List.map_cons,
      List.zipIdx_append, List.zipIdx_cons, List.takeWhile_append_of_pos]
    · rw [List.takeWhile_cons_of_neg, List.append_nil]
      · rfl
      · show ¬ (!(lineOf line).isEnd) = true
        rw [hend]
        decide
    · rintro ⟨line, number⟩ hm
      have hline := hall.isEnd line (List.fst_mem_of_mem_zipIdx hm)
      simp [hline]
  show (run (Descriptor.parse text source library) ()).1 = _
  rw [run_parse, hbody, hall.run_forEach]
  rfl

end Hunks.Descriptor
