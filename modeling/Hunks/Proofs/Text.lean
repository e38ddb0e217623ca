import Mathlib
import Hunks.Text.Literal
import Hunks.Text.WordChar

namespace Hunks.Text

variable {c : Char} {text rest before after line digits : List Char}

/-- What holds of each plain character. -/
theorem forall_plain {P : Char → Prop} (h : ∀ n : Fin 128, P (Char.ofNat n)) (hc : c.toNat < 128) : P c := by
  have hn := h ⟨c.toNat, hc⟩
  rwa [Char.ofNat_toNat] at hn

theorem isBlank_eq_false_of_word (hc : c.toNat < 128) (hw : isWordChar c) : isBlank c = false := by
  have h : ∀ n : Fin 128, isWordChar (Char.ofNat n) → isBlank (Char.ofNat n) = false := by decide +kernel
  exact forall_plain (P := fun c ↦ isWordChar c → isBlank c = false) h hc hw

section Strip

theorem dropBlanks_append_of_blank (h : ∀ c ∈ before, isBlank c) (text : List Char) :
    dropBlanks (before ++ text) = dropBlanks text := by
  rw [dropBlanks, List.dropWhile_append_of_pos h]
  rfl

theorem dropBlanks_cons_of_not (h : isBlank c = false) (rest : List Char) :
    dropBlanks (c :: rest) = c :: rest := by
  rw [dropBlanks, List.dropWhile_cons_of_neg (by simp [h])]

theorem dropBlanks_of_head (h : ∀ c ∈ text.head?, isBlank c = false) : dropBlanks text = text := by
  cases text with
  | nil => rfl
  | cons c rest => exact dropBlanks_cons_of_not (h c rfl) rest

theorem dropBlanks_eq_nil : dropBlanks text = [] ↔ ∀ c ∈ text, isBlank c := by
  rw [dropBlanks, List.dropWhile_eq_nil_iff]

theorem isBlank_head?_dropBlanks (text : List Char) : ∀ c ∈ (dropBlanks text).head?, isBlank c = false := by
  intro c hc
  have h := List.head?_dropWhile_not isBlank text
  rw [dropBlanks] at hc
  rw [Option.mem_def.mp hc] at h
  exact h

theorem stripChars_append_takeWhile (text : List Char) :
    stripChars text ++ ((dropBlanks text).reverse.takeWhile isBlank).reverse = dropBlanks text := by
  have hback := List.takeWhile_append_dropWhile (p := isBlank) (l := (dropBlanks text).reverse)
  rw [stripChars, dropBlanks, ← List.reverse_append, hback, List.reverse_reverse]

/-- Nothing but blanks is stripped. -/
theorem exists_pad (text : List Char) : ∃ before after : List Char, (∀ c ∈ before, isBlank c) ∧
    (∀ c ∈ after, isBlank c) ∧ text = before ++ stripChars text ++ after := by
  refine ⟨text.takeWhile isBlank, ((dropBlanks text).reverse.takeWhile isBlank).reverse,
    fun c hc ↦ List.mem_takeWhile_imp hc, fun c hc ↦ List.mem_takeWhile_imp (List.mem_reverse.mp hc), ?_⟩
  rw [List.append_assoc, stripChars_append_takeWhile]
  exact List.takeWhile_append_dropWhile.symm

theorem stripChars_eq_nil : stripChars text = [] ↔ ∀ c ∈ text, isBlank c := by
  constructor
  · intro h
    obtain ⟨before, after, hbefore, hafter, htext⟩ := exists_pad text
    rw [h, List.append_nil] at htext
    rw [htext]
    exact fun c hc ↦ (List.mem_append.mp hc).elim (hbefore c) (hafter c)
  · intro h
    rw [stripChars, dropBlanks_eq_nil.mpr h]
    rfl

/-- A text between blanks that has none at its own ends. -/
theorem stripChars_pad (hfirst : ∀ c ∈ text.head?, isBlank c = false)
    (hlast : ∀ c ∈ text.getLast?, isBlank c = false) (hbefore : ∀ c ∈ before, isBlank c)
    (hafter : ∀ c ∈ after, isBlank c) : stripChars (before ++ text ++ after) = text := by
  cases htext : text with
  | nil =>
    rw [stripChars_eq_nil, List.append_nil]
    exact fun c hc ↦ (List.mem_append.mp hc).elim (hbefore c) (hafter c)
  | cons c rest =>
    have hfront : dropBlanks (before ++ text ++ after) = text ++ after := by
      rw [List.append_assoc, dropBlanks_append_of_blank hbefore, htext]
      exact dropBlanks_cons_of_not (hfirst c (by rw [htext]; rfl)) _
    have hback : dropBlanks text.reverse = text.reverse := by
      refine dropBlanks_of_head ?_
      rwa [List.head?_reverse]
    rw [← htext, stripChars, hfront, List.reverse_append,
      dropBlanks_append_of_blank (by simpa using hafter), hback, List.reverse_reverse]

theorem stripChars_of_ends (hfirst : ∀ c ∈ text.head?, isBlank c = false)
    (hlast : ∀ c ∈ text.getLast?, isBlank c = false) : stripChars text = text := by
  simpa using stripChars_pad hfirst hlast (List.forall_mem_nil _) (List.forall_mem_nil _)

theorem dropBlanks_append (h : ∀ c ∈ text.head?, isBlank c = false) (before : List Char) :
    dropBlanks (before ++ text) = dropBlanks before ++ text := by
  rw [dropBlanks, List.dropWhile_append]
  split <;> rename_i hempty
  · rw [dropBlanks, List.isEmpty_iff.mp hempty]
    exact dropBlanks_of_head h
  · rfl

/-- What follows a text without blanks at its ends is stripped at its own end. -/
theorem stripChars_append (hne : text ≠ []) (hfirst : ∀ c ∈ text.head?, isBlank c = false)
    (hlast : ∀ c ∈ text.getLast?, isBlank c = false) (after : List Char) :
    ∃ kept, kept <+: after ∧ stripChars (text ++ after) = text ++ kept := by
  refine ⟨(dropBlanks after.reverse).reverse, ?_, ?_⟩
  · have hkept := List.reverse_prefix.mpr (List.dropWhile_suffix (l := after.reverse) isBlank)
    rwa [List.reverse_reverse] at hkept
  · have hfront : dropBlanks (text ++ after) = text ++ after := by
      refine dropBlanks_of_head ?_
      rwa [List.head?_append_of_ne_nil _ hne]
    rw [stripChars, hfront, List.reverse_append, dropBlanks_append (by rwa [List.head?_reverse]),
      List.reverse_append, List.reverse_reverse]

theorem stripChars_stripChars (text : List Char) : stripChars (stripChars text) = stripChars text := by
  refine stripChars_of_ends (fun c hc ↦ isBlank_head?_dropBlanks text c ?_) fun c hc ↦ ?_
  · rw [← stripChars_append_takeWhile, List.head?_append, hc]
    rfl
  · rw [stripChars, List.getLast?_reverse] at hc
    exact isBlank_head?_dropBlanks _ c hc

theorem mem_or_isBlank (hc : c ∈ text) : c ∈ stripChars text ∨ isBlank c := by
  obtain ⟨before, after, hbefore, hafter, htext⟩ := exists_pad text
  rw [htext, List.mem_append, List.mem_append] at hc
  rcases hc with (hc | hc) | hc
  · exact Or.inr (hbefore c hc)
  · exact Or.inl hc
  · exact Or.inr (hafter c hc)

end Strip

section Lines

theorem forall_isLineBreak {lines : List (List Char)} (h : lines.all fun line ↦ line.all (!isLineBreak ·)) :
    ∀ line ∈ lines, ∀ c ∈ line, isLineBreak c = false := by
  intro line hline c hc
  simpa using List.all_eq_true.mp (List.all_eq_true.mp h line hline) c hc

theorem linesFrom_cons (hc : isLineBreak c = false) (line rest : List Char) :
    linesFrom line (c :: rest) = linesFrom (c :: line) rest := by
  have hne : c ≠ '\r' := by
    rintro rfl
    exact absurd hc (by decide)
  rw [linesFrom]
  · rw [if_neg (by simp [hc])]
  · exact fun _ h _ ↦ hne h

theorem linesFrom_append (h : ∀ c ∈ text, isLineBreak c = false) (line rest : List Char) :
    linesFrom line (text ++ rest) = linesFrom (text.reverse ++ line) rest := by
  induction text generalizing line with
  | nil => rfl
  | cons c text ih =>
    obtain ⟨hc, htext⟩ := List.forall_mem_cons.mp h
    rw [List.cons_append, linesFrom_cons hc, ih htext, List.reverse_cons, List.append_assoc]
    rfl

/-- A line up to its line feed. -/
theorem linesFrom_line (h : ∀ c ∈ text, isLineBreak c = false) (rest : List Char) :
    linesFrom [] (text ++ '\n' :: rest) = text :: linesFrom [] rest := by
  rw [linesFrom_append h, List.append_nil]
  cases hr : text.reverse with
  | nil =>
    rw [List.reverse_eq_nil_iff.mp hr]
    rfl
  | cons c line =>
    rw [← List.reverse_reverse text, hr]
    rfl

/-- The line that a text ends with, or its first one. -/
theorem linesFrom_first (hline : line ≠ []) (rest : List Char) :
    ∃ more, linesFrom line rest = (line.reverse ++ rest.takeWhile (!isLineBreak ·)) :: more := by
  -- a carriage return ends the line with or without a line feed behind it
  induction rest generalizing line with
  | nil =>
    cases line with
    | nil => exact absurd rfl hline
    | cons c line => exact ⟨[], by simp [linesFrom]⟩
  | cons c rest ih =>
    by_cases hc : isLineBreak c
    · rw [List.takeWhile_cons_of_neg (by simp [hc]), List.append_nil]
      by_cases hpair : ∃ after, c = '\r' ∧ rest = '\n' :: after
      · obtain ⟨after, rfl, rfl⟩ := hpair
        exact ⟨_, linesFrom.eq_3 ..⟩
      · rw [linesFrom, if_pos hc]
        · exact ⟨_, rfl⟩
        · exact fun after h h' ↦ hpair ⟨after, h, h'⟩
    · have hc' : isLineBreak c = false := by simpa using hc
      obtain ⟨more, hmore⟩ := ih (List.cons_ne_nil c line)
      refine ⟨more, ?_⟩
      rw [linesFrom_cons hc', hmore, List.takeWhile_cons_of_pos (by simp [hc']), List.reverse_cons,
        List.append_assoc]
      rfl

end Lines

section Parts

/-- Parts with one of the separators between any two of them, each a form of its element. -/
inductive Joined {α : Type} (separators : List Char) (Form : α → List Char → Prop) : List α → List Char → Prop
  | single {a : α} {part : List Char} : Form a part → Joined separators Form [a] part
  | cons {a : α} {as : List α} {part text : List Char} {separator : Char} : Form a part →
    separator ∈ separators → Joined separators Form as text →
    Joined separators Form (a :: as) (part ++ separator :: text)

theorem splitAt_append {isSeparator : Char → Bool} (h : ∀ c ∈ text, isSeparator c = false)
    (part rest : List Char) :
    splitAt isSeparator part (text ++ rest) = splitAt isSeparator (text.reverse ++ part) rest := by
  induction text generalizing part with
  | nil => rfl
  | cons c text ih =>
    obtain ⟨hc, htext⟩ := List.forall_mem_cons.mp h
    rw [List.cons_append, splitAt, if_neg (by simp [hc]), ih htext, List.reverse_cons, List.append_assoc]
    rfl

end Parts

section Digits

/-- A number in decimal digits. -/
structure Numeral (n : Nat) (digits : List Char) : Prop where
  ne_nil : digits ≠ []
  isDigit : ∀ c ∈ digits, c.isDigit
  value : digits.foldl (fun n c ↦ n * 10 + (c.toNat - 0x30)) 0 = n

theorem toNat_lt_of_isDigit (hc : c.isDigit) : c.toNat < 128 := by
  simp only [Char.isDigit, Bool.and_eq_true, decide_eq_true_eq, UInt32.le_iff_toNat_le] at hc
  have h : c.toNat ≤ 57 := hc.2
  omega

/-- A digit is no blank, no sign and no underscore, and stands for itself. -/
theorem of_isDigit (hc : c.isDigit) : isBlank c = false ∧ plainChar c = c ∧ isPlainBlank c = false ∧
    c ≠ '-' ∧ c ≠ '+' ∧ c ≠ '_' ∧ baseDigit? 10 c = some (c.toNat - 0x30) := by
  have h : ∀ n : Fin 128, (Char.ofNat n).isDigit → isBlank (Char.ofNat n) = false ∧
      plainChar (Char.ofNat n) = Char.ofNat n ∧ isPlainBlank (Char.ofNat n) = false ∧ Char.ofNat n ≠ '-' ∧
      Char.ofNat n ≠ '+' ∧ Char.ofNat n ≠ '_' ∧
      baseDigit? 10 (Char.ofNat n) = some ((Char.ofNat n).toNat - 0x30) := by decide +kernel
  exact forall_plain (P := fun c ↦ c.isDigit → isBlank c = false ∧ plainChar c = c ∧ isPlainBlank c = false ∧
    c ≠ '-' ∧ c ≠ '+' ∧ c ≠ '_' ∧ baseDigit? 10 c = some (c.toNat - 0x30)) h (toNat_lt_of_isDigit hc) hc

theorem isLineBreak_of_isDigit (hc : c.isDigit) : isLineBreak c = false := by
  have h : ∀ n : Fin 128, (Char.ofNat n).isDigit → isLineBreak (Char.ofNat n) = false := by decide +kernel
  exact forall_plain (P := fun c ↦ c.isDigit → isLineBreak c = false) h (toNat_lt_of_isDigit hc) hc

theorem digits?_of_isDigit (hne : digits ≠ []) (h : ∀ c ∈ digits, c.isDigit) :
    digits? 10 digits = some (digits.map (·.toNat - 0x30)) := by
  induction digits with
  | nil => exact absurd rfl hne
  | cons c digits ih =>
    obtain ⟨hc, hdigits⟩ := List.forall_mem_cons.mp h
    obtain ⟨-, -, -, -, -, -, hvalue⟩ := of_isDigit hc
    cases digits with
    | nil => rw [digits?, hvalue]; rfl
    | cons d digits =>
      obtain ⟨-, -, -, -, -, hd, -⟩ := of_isDigit (hdigits d List.mem_cons_self)
      rw [digits?, hvalue, ih (List.cons_ne_nil d digits) hdigits]
      · rfl
      · exact nofun
      · intro _ h
        exact hd (List.cons.inj h).1

theorem trimmed_of_isDigit (h : ∀ c ∈ digits, c.isDigit) : trimmed (String.ofList digits) = digits := by
  have hplain : digits.map plainChar = digits := by
    refine (List.map_congr_left fun c hc ↦ ?_).trans (List.map_id digits)
    exact (of_isDigit (h c hc)).2.1
  have hdrop : ∀ text : List Char, (∀ c ∈ text, c.isDigit) → text.dropWhile isPlainBlank = text := by
    intro text htext
    cases text with
    | nil => rfl
    | cons c rest =>
      obtain ⟨-, -, hc, -⟩ := of_isDigit (htext c List.mem_cons_self)
      exact List.dropWhile_cons_of_neg (by simp [hc])
  rw [trimmed, String.toList_ofList, hplain, hdrop digits h, hdrop _ (by simpa using h), List.reverse_reverse]

/-- A decimal number is read unless it has too many digits. -/
theorem Numeral.decimal? {n : Nat} (h : Numeral n digits) :
    Text.decimal? (String.ofList digits) = if maxDigits < digits.length then none else some (n : Int) := by
  have hsigned : signed? (natOfDigits? 10) digits = (natOfDigits? 10 digits).map fun n ↦ (n : Int) := by
    cases hdigits : digits with
    | nil => exact absurd hdigits h.ne_nil
    | cons c rest =>
      obtain ⟨-, -, -, hminus, hplus, -⟩ := of_isDigit (h.isDigit c (hdigits ▸ List.mem_cons_self))
      rw [signed?]
      · exact fun _ h ↦ hminus (List.cons.inj h).1
      · exact fun _ h ↦ hplus (List.cons.inj h).1
  have hvalue : (digits.map (·.toNat - 0x30)).foldl (fun n d ↦ n * 10 + d) 0 = n := by
    rw [List.foldl_map]
    exact h.value
  rw [Text.decimal?, trimmed_of_isDigit h.isDigit, hsigned, natOfDigits?, digits?_of_isDigit h.ne_nil h.isDigit]
  simp only [Option.bind_eq_bind, Option.bind_some, List.length_map, true_and]
  split
  · rfl
  · rw [hvalue]
    rfl

end Digits

end Hunks.Text
