import Mathlib
import Hunks.Proofs.Block.RoundTrip
import Hunks.Proofs.Spends

namespace Hunks

open Decoder

namespace Encode

variable {α β : Type}

theorem bind_eq_ok {x : Except EncodeError α} {f : α → Except EncodeError β} {b : β} :
    x >>= f = .ok b ↔ ∃ a, x = .ok a ∧ f a = .ok b := by
  cases x <;> simp [bind, Except.bind]

/-- A part at a time, a sequence is as long as its parts are together. -/
theorem length_concat_le {f : α → Except EncodeError (List UInt8)} {size : α → Nat} {as : List α}
    (h : ∀ a ∈ as, ∀ part, f a = .ok part → part.length ≤ size a) {bytes : List UInt8}
    (hb : concat f as = .ok bytes) : bytes.length ≤ (as.map size).sum := by
  obtain ⟨parts, hparts, rfl⟩ : ∃ parts, as.mapM f = .ok parts ∧ parts.flatten = bytes := by
    obtain ⟨parts, hparts, hb⟩ := bind_eq_ok.mp hb
    exact ⟨parts, hparts, Except.ok.inj hb⟩
  clear hb
  induction as generalizing parts with
  | nil =>
    cases hparts
    exact Nat.zero_le 0
  | cons a as ih =>
    obtain ⟨ha, has⟩ := List.forall_mem_cons.mp h
    rw [List.mapM_cons] at hparts
    obtain ⟨part, hpart, hparts⟩ := bind_eq_ok.mp hparts
    obtain ⟨rest, hrest, hparts⟩ := bind_eq_ok.mp hparts
    cases hparts
    rw [List.flatten_cons, List.length_append, List.map_cons, List.sum_cons]
    exact Nat.add_le_add (ha part hpart) (ih has rest hrest)

end Encode

namespace Text

/-- The bytes of a name with its count of long words in front. -/
def nameSize (text : String) : Nat := 4 + (text.length + 3) / 4 * 4

theorem length_encode_name {text : String} (h : IsName text) {bytes : List UInt8}
    (hb : Encode.name text = .ok bytes) : bytes.length = nameSize text := by
  rw [Encode.name, paddedName_eq h] at hb
  cases hb
  rw [List.length_append, Bytes.length_long, length_padded, nameSize]

end Text

namespace Decoder

theorem nameOfLongs_spends (longs : Int) :
    Spends (nameOfLongs longs) fun n text ↦ Text.nameSize text ≤ 4 + n := by
  refine (take_spends _).bind fun bytes m ⟨hm, hlength⟩ ↦ .pure ?_
  have hl := (List.takeWhile_sublist (fun b : UInt8 ↦ decide (b ≠ 0)) (l := bytes)).length_le
  rw [Text.nameSize, Text.ofLatin1, String.length_ofList, List.length_map]
  omega

theorem name_spends : Spends name fun n text ↦ Text.nameSize text ≤ n := by
  refine word_spends.bind fun longs m hm ↦ .ite (fun _ ↦ .pure ?_) fun _ ↦
    (nameOfLongs_spends _).mono fun n text h ↦ ?_
  · rw [Text.nameSize, String.length_empty]
    omega
  · omega

theorem words_spends (count : Nat) :
    Spends (words count) fun n as ↦ as.length = count ∧ 4 * count = n :=
  numbers_spends 4 count

theorem shorts_spends (count : Nat) :
    Spends (shorts count) fun n as ↦ as.length = count ∧ 2 * count = n :=
  numbers_spends 2 count

theorem longBytes_spends (longs : Nat) : Spends (longBytes longs) fun n data ↦ data.size = n :=
  (take_spends _).bind fun _ _ ⟨_, hlength⟩ ↦ .pure hlength

end Decoder

namespace Header

def slotSize (memFlags : Int) : Nat :=
  if Bytes.low32 memFlags &&& memoryMask = memoryMask then 8 else 4

def encodedSize (header : Header) : Nat :=
  (header.libraries.map Text.nameSize).sum + 16 + (header.memFlags.map slotSize).sum

theorem length_encodeSlots_le (sizes flags : List Int) (attrs : List (Option Int)) :
    (encodeSlots sizes flags attrs).length ≤ (flags.map slotSize).sum := by
  induction flags generalizing sizes attrs with
  | nil => cases sizes <;> simp [encodeSlots]
  | cons flag flags ih =>
    cases sizes with
    | nil => simp [encodeSlots]
    | cons size sizes =>
      cases attrs with
      | nil => simp [encodeSlots]
      | cons attr attrs =>
        have hslot : (encodeSlot size flag attr).length = slotSize flag := by
          rw [encodeSlot, slotSize, List.length_append, Bytes.length_long]
          split <;> simp [Bytes.length_long]
        rw [encodeSlots, List.length_append, hslot, List.map_cons, List.sum_cons]
        exact Nat.add_le_add_left (ih sizes attrs) _

theorem length_encode_le {header : Header} (h : header.InRange) {bytes : List UInt8}
    (hb : header.encode = .ok bytes) : bytes.length ≤ header.encodedSize := by
  obtain ⟨names, hnames, hb⟩ := Encode.bind_eq_ok.mp hb
  cases hb
  have hlibraries := Encode.length_concat_le (fun name hm part hp ↦
    (Text.length_encode_name (h.libraries name hm).1 hp).le) hnames
  have hslots := length_encodeSlots_le header.sizes header.memFlags header.memAttrs
  simp only [List.length_append, Bytes.length_long, encodedSize]
  omega

theorem decodeSlot_spends (hunk : Nat) :
    Spends (decodeSlot hunk) fun n slot ↦ slotSize slot.memFlags ≤ n := by
  refine word_spends.bind fun size m hm ↦ ?_
  have hlow : Bytes.low32 ((size &&& memoryMask : Nat) : Int) &&& memoryMask = size &&& memoryMask := by
    rw [Bytes.low32_natCast (Nat.lt_of_le_of_lt Nat.and_le_right (by decide)), Nat.and_assoc,
      Nat.and_self]
  refine .ite (fun h ↦ ?_) fun h ↦ ?_
  · refine (Spends.map (Q := fun n _ ↦ n = 4) word_spends).bind fun attr k hk ↦
      (Spends.debug _).bind fun _ j hj ↦ .pure ?_
    rw [slotSize, hlow, if_pos h]
    omega
  · refine (Spends.pure (P := fun n _ ↦ n = 0) rfl).bind fun attr k hk ↦
      (Spends.debug _).bind fun _ j hj ↦ .pure ?_
    rw [slotSize, hlow, if_neg h]
    omega

theorem decode_spends : Spends decode fun n header ↦ header.encodedSize ≤ n := by
  have hlibrary : Spends (do
      let library ← name
      return if library.isEmpty then none else some library)
      fun n r ↦ r.elim 4 Text.nameSize ≤ n := by
    refine name_spends.bind fun library n hn ↦ .pure ?_
    have h4 : 4 ≤ Text.nameSize library := Nat.le_add_right ..
    split
    · exact h4.trans hn
    · exact hn
  refine (Spends.many hlibrary).bind fun libraries n hn ↦ word_spends.bind fun tableSize n₁ h₁ ↦
    word_spends.bind fun firstHunk n₂ h₂ ↦ word_spends.bind fun lastHunk n₃ h₃ ↦
    .ite (fun _ ↦ ?_) fun _ ↦ ?_
  · exact (Spends.fail (P := fun _ _ ↦ False)).bind fun _ _ h ↦ h.elim
  · refine (Spends.debug _).bind fun _ n₄ h₄ ↦ (Spends.debug _).bind fun _ n₅ h₅ ↦
      (Spends.times fun i ↦ decodeSlot_spends _).bind fun slots n₆ ⟨_, h₆⟩ ↦ .pure ?_
    have hflags : (slots.map fun slot ↦ (slot.memFlags : Int)).map slotSize =
        slots.map fun slot ↦ slotSize slot.memFlags := List.map_map
    simp only [encodedSize, hflags]
    omega

end Header

namespace SegmentContent

def encodedSize (content : SegmentContent) : Nat := 4 + (content.data.getD #[]).size

theorem length_encode_le {content : SegmentContent} {kind : SegmentKind} {tag : Option Int}
    {bytes : List UInt8} (hb : content.encode kind tag = .ok bytes) :
    bytes.length ≤ content.encodedSize := by
  obtain ⟨_, _, hb⟩ := Encode.bind_eq_ok.mp hb
  dsimp only at hb
  split at hb
  · cases hb
    rw [Bytes.length_long]
    exact Nat.le_add_right ..
  · obtain ⟨data, hd, hb⟩ := Encode.bind_eq_ok.mp hb
    cases hb
    cases hdata : content.data with
    | none => simp [hdata, Encode.present] at hd
    | some data' =>
      rw [hdata] at hd
      cases hd
      rw [List.length_append, Bytes.length_long, encodedSize, hdata, Array.length_toList]
      rfl

theorem decode_spends (kind : SegmentKind) (tag : Nat) :
    Spends (decode kind tag) fun n content ↦ content.encodedSize ≤ n := by
  refine word_spends.bind fun size m hm ↦ (Spends.debug _).bind fun _ m' hm' ↦
    .ite (fun _ ↦ .pure ?_) fun _ ↦
    (Spends.free (x := position) fun _ _ ↦ rfl).bind fun start k hk ↦
    (longBytes_spends _).bind fun data n hn ↦ .pure ?_
  · rw [encodedSize]
    simp only [Option.getD_none, List.size_toArray, List.length_nil]
    omega
  · rw [encodedSize, Option.getD_some]
    omega

end SegmentContent

namespace RelocGroup

/-- A table of short relocations takes full long words. -/
def encodedSize (kind : RelocKind) (groups : List RelocGroup) : Nat :=
  kind.numberBytes * shortCount groups +
    if kind.isShort ∧ shortCount groups % 2 = 1 then 2 else 0

theorem length_encodeAll (kind : RelocKind) (groups : List RelocGroup) :
    (encodeAll kind groups).length = encodedSize kind groups := by
  by_cases hs : kind.isShort
  · have hlength : (groups.map (encode Bytes.short)).flatten.length + 2 = 2 * shortCount groups :=
      length_groups 2 groups
    rw [encodeAll, if_pos hs, encodedSize, RelocKind.numberBytes, if_pos hs, ← hlength]
    simp only [hs, true_and, List.length_append, Bytes.length_short]
    split <;> rfl
  · have hlength : (groups.map (encode Bytes.long)).flatten.length + 4 = 4 * shortCount groups :=
      length_groups 4 groups
    rw [encodeAll, if_neg hs, encodedSize, RelocKind.numberBytes, if_neg hs, ← hlength]
    simp [hs, Bytes.length_long]

theorem decode?_spends (size : Nat) (text : Nat → Nat → String) :
    Spends (decode? size text) fun n r ↦
      r.elim size (fun group ↦ size * (group.offsets.length + 2)) ≤ n := by
  refine (number_spends size).bind fun count m hm ↦ .ite (fun _ ↦ .pure hm.ge) fun _ ↦
    (number_spends size).bind fun hunk m' hm' ↦ (numbers_spends size count).bind fun offsets n hn ↦
    (Spends.debug _).bind fun _ k hk ↦ .pure ?_
  rw [Option.elim_some, hn.1, Nat.mul_add]
  omega

theorem decode?_spends_all (size : Nat) (text : Nat → Nat → String) :
    Spends (many (decode? size text)) fun n groups ↦ size * shortCount groups ≤ n := by
  refine (Spends.many (decode?_spends size text)).mono fun n groups h ↦ ?_
  have hsum : ((groups.map fun group ↦ size * (group.offsets.length + 2)).sum) + size =
      size * shortCount groups := by
    rw [← length_groups, List.length_flatten, List.map_map]
    simp only [Function.comp_def, length_encode]
  exact hsum.symm.le.trans h

theorem decodeAll_spends (kind : RelocKind) :
    Spends (decodeAll kind) fun n groups ↦ encodedSize kind groups ≤ n := by
  refine .ite (fun hs ↦ ?_) fun hs ↦ ?_
  · simp only [encodedSize, RelocKind.numberBytes, hs, true_and, if_true]
    refine (decode?_spends_all 2 _).bind fun groups n hn ↦ .ite (fun hodd ↦ ?_) fun hodd ↦ .pure ?_
    · refine short_spends.bind fun _ m hm ↦ .pure ?_
      rw [if_pos hodd]
      omega
    · rw [if_neg hodd]
      omega
  · simp only [encodedSize, RelocKind.numberBytes, hs]
    exact decode?_spends_all 4 _

end RelocGroup

namespace SymbolEntry

def encodedSize (entry : SymbolEntry) : Nat := Text.nameSize entry.name + 4

theorem length_encode_le {entry : SymbolEntry} (h : entry.InRange) {bytes : List UInt8}
    (hb : entry.encode = .ok bytes) : bytes.length ≤ entry.encodedSize := by
  obtain ⟨part, hpart, hb⟩ := Encode.bind_eq_ok.mp hb
  cases hb
  rw [List.length_append, Bytes.length_long, Text.length_encode_name h.name hpart]
  exact le_rfl

theorem decode?_spends : Spends decode? fun n r ↦ r.elim 4 encodedSize ≤ n := by
  refine name_spends.bind fun symbol n hn ↦ .ite (fun _ ↦ .pure ?_) fun _ ↦
    word_spends.bind fun value m hm ↦ (Spends.debug _).bind fun _ k hk ↦ .pure ?_
  · exact (Nat.le_add_right ..).trans hn
  · simp only [Option.elim_some, encodedSize]
    omega

end SymbolEntry

namespace External

def tailSize (kind : ExternalKind) (offsets : Option (List Int)) : Nat :=
  (if kind.isCommon then 4 else 0) +
    if kind.isDefinition then 4 else 4 + 4 * (offsets.getD []).length

def encodedSize (entry : External) : Nat :=
  Text.nameSize entry.name + tailSize entry.kind entry.offsets

theorem length_encode_le {entry : External} (h : entry.InRange) {bytes : List UInt8}
    (hb : entry.encode = .ok bytes) : bytes.length ≤ entry.encodedSize := by
  have hname := Text.length_padded entry.name
  obtain ⟨_, part, -, -, hpart, -⟩ := size_reads h
  have hcommon : part.length = if entry.kind.isCommon then 4 else 0 := by
    split at hpart <;> rename_i hc
    · obtain ⟨size, hs, -⟩ := h.common hc
      rw [hs] at hpart
      cases hpart
      rw [if_pos hc, Bytes.length_long]
    · cases hpart
      rw [if_neg hc]
      rfl
  rw [encode_eq h.name hpart] at hb
  rw [encodedSize, tailSize, Text.nameSize]
  by_cases hd : entry.kind.isDefinition
  · rw [if_pos hd] at hb ⊢
    obtain ⟨value, -, hb⟩ := Encode.bind_eq_ok.mp hb
    cases hb
    simp only [List.length_append, Bytes.length_long]
    omega
  · rw [if_neg hd] at hb ⊢
    obtain ⟨offsets, hoffsets, hb⟩ := Encode.bind_eq_ok.mp hb
    cases hb
    obtain ⟨-, offsets', ho, -⟩ := h.reference hd
    rw [ho] at hoffsets ⊢
    cases hoffsets
    have hlength : (offsets.map Bytes.long).flatten.length = 4 * offsets.length :=
      length_numbers 4 offsets
    simp only [List.length_append, Bytes.length_long, hlength, Option.getD_some]
    omega

theorem decodeTail_spends (symbol : String) (kind : ExternalKind) (size : Option Nat) :
    Spends (decodeTail symbol kind size) fun n r ↦
      ∀ entry ∈ r, entry.encodedSize ≤ Text.nameSize symbol + (if kind.isCommon then 4 else 0) + n := by
  refine .ite (fun hd ↦ word_spends.bind fun value m hm ↦ (Spends.debug _).bind fun _ k hk ↦
    .pure ?_) fun hd ↦ word_spends.bind fun count m hm ↦ (words_spends count).bind fun offsets n hn ↦
    (Spends.debug _).bind fun _ k hk ↦ .pure ?_
  · rintro entry ⟨rfl⟩
    simp only [encodedSize, tailSize, if_pos hd]
    omega
  · rintro entry ⟨rfl⟩
    simp only [encodedSize, tailSize, if_neg hd, Option.getD_some, hn.1]
    omega

theorem decodeTail_some (symbol : String) (kind : ExternalKind) (size : Option Nat) :
    Yields (decodeTail symbol kind size) fun r ↦ ∃ entry, r = some entry :=
  .ite (fun _ ↦ (Yields.any _).bind fun _ _ ↦ (Yields.any _).bind fun _ _ ↦ .pure ⟨_, rfl⟩) fun _ ↦
    (Yields.any _).bind fun _ _ ↦ (Yields.any _).bind fun _ _ ↦ (Yields.any _).bind fun _ _ ↦
      .pure ⟨_, rfl⟩

theorem decode?_spends : Spends decode? fun n r ↦ r.elim 4 encodedSize ≤ n := by
  refine word_spends.bind fun head m hm ↦ .ite (fun _ ↦ .pure hm.ge) fun _ ↦
    (nameOfLongs_spends _).bind fun symbol n hn ↦ ?_
  cases ExternalKind.ofNumber? (head / 0x1000000) with
  | none => exact Spends.fail
  | some kind =>
    have htail : ∀ size k, (if kind.isCommon then 4 else 0) ≤ k →
        Spends (decodeTail symbol kind size) fun j r ↦
          r.elim 4 encodedSize ≤ m + (n + (k + j)) := by
      intro size k hk
      refine ((decodeTail_spends symbol kind size).and (decodeTail_some symbol kind size)).mono ?_
      rintro j r ⟨hr, entry, rfl⟩
      have hle := hr entry rfl
      rw [Option.elim_some]
      omega
    refine .ite (fun hc ↦ ?_) fun hc ↦ ?_
    · refine (Spends.map (Q := fun k _ ↦ k = 4) word_spends).bind fun size k hk ↦ htail _ k ?_
      rw [if_pos hc, hk]
    · refine (Spends.pure (P := fun k _ ↦ k = 0) rfl).bind fun size k hk ↦ htail _ k ?_
      rw [if_neg hc]
      exact Nat.zero_le k

end External

namespace IndexDefinition

theorem decode_spends : Spends decode fun n _ ↦ n = 6 :=
  short_spends.bind fun _ _ h₁ ↦ short_spends.bind fun _ _ h₂ ↦ short_spends.bind fun _ _ h₃ ↦
    .pure (by omega)

end IndexDefinition

namespace IndexHunk

theorem decode_spends : Spends decode fun n hunk ↦ 2 * hunk.shortCount = n := by
  refine short_spends.bind fun nameOffset n₁ h₁ ↦ short_spends.bind fun longs n₂ h₂ ↦
    short_spends.bind fun memoryType n₃ h₃ ↦ short_spends.bind fun count n₄ h₄ ↦
    (shorts_spends count).bind fun refs n₅ h₅ ↦ short_spends.bind fun count' n₆ h₆ ↦
    (Spends.times_eq (c := fun _ ↦ 6) fun _ ↦ IndexDefinition.decode_spends.mono fun _ _ h ↦ h.symm).bind
      fun definitions n₇ h₇ ↦ .pure ?_
  rw [List.map_const', List.sum_replicate, smul_eq_mul] at h₇
  simp only [shortCount]
  omega

end IndexHunk

namespace IndexUnit

theorem decode_spends : Spends decode fun n unit ↦ 2 * unit.shortCount = n := by
  refine short_spends.bind fun nameOffset n₁ h₁ ↦ short_spends.bind fun firstHunkOffset n₂ h₂ ↦
    short_spends.bind fun count n₃ h₃ ↦
    (Spends.times_eq fun _ ↦ IndexHunk.decode_spends).bind fun hunks n₄ h₄ ↦ .pure ?_
  rw [shortCount_eq]
  dsimp only
  omega

end IndexUnit

namespace Index

def encodedSize (index : Index) : Nat := 4 + 2 * index.shortCount

/-- A table may be written with a word that fills up its last long word. -/
theorem length_encode_le {index : Index} (h : index.InRange) {bytes : List UInt8}
    (hb : index.encode = .ok bytes) : bytes.length ≤ index.encodedSize + 2 := by
  obtain ⟨parts, hp, hparts⟩ := concat_eq fun unit hm ↦ IndexUnit.encode_reads (h.units unit hm)
  rw [encode_eq hparts h hp] at hb
  cases hb
  rw [List.length_append, List.length_append, Bytes.length_long, length_content hparts, fill, encodedSize]
  split <;> simp only [List.length_cons, List.length_nil] <;> omega

/-- One short word fills up what the units leave of the long words. Units may take more short words than
are left. -/
theorem decodeUnits_spends (left : Int) : Spends (decodeUnits left) fun n units ↦
    (n : Int) = 2 * max left (units.map IndexUnit.shortCount).sum := by
  have hunits : Spends (manyWith decodeUnit? left) fun n p ↦
      n = 2 * (p.1.map IndexUnit.shortCount).sum ∧
        p.2 = left - (p.1.map IndexUnit.shortCount).sum ∧ p.2 ≤ 1 := by
    rintro window pos ⟨units, rest⟩ pos' h
    refine Spends.of_many (R := fun (left : Int) n (units : List IndexUnit) (rest : Int) ↦
      n = 2 * (units.map IndexUnit.shortCount).sum ∧
        rest = left - (units.map IndexUnit.shortCount).sum ∧ rest ≤ 1)
      (fun left ↦ ?_) (fun left ↦ ?_) (manyWith_eq_ok.mp h).2
    · exact .ite (fun hleft ↦ .pure fun _ ↦ ⟨rfl, (Int.sub_zero left).symm, hleft⟩) fun _ ↦
        IndexUnit.decode_spends.bind fun unit n _ ↦ .pure fun h ↦ nomatch h
    · refine .ite (fun _ ↦ .pure fun a b' h ↦ nomatch h) fun _ ↦
        IndexUnit.decode_spends.bind fun unit n hn ↦ .pure ?_
      rintro _ _ ⟨⟩ m units rest ⟨hm, hrest, hle⟩
      rw [List.map_cons, List.sum_cons]
      omega
  refine hunits.bind fun ⟨units, rest⟩ n ⟨hn, hrest, hle⟩ ↦ ?_
  dsimp only at hn hrest hle ⊢
  exact .ite (fun _ ↦ short_spends.bind fun _ m _ ↦ .pure (by omega)) fun _ ↦ .pure (by omega)

/-- The part of an index block behind its number of long words. -/
def decodeTables (longs : Nat) : Decoder Index := do
  let size ← short
  let strings ← take size
  if size % 2 = 1 then
    let _ ← take 1
  let units ← decodeUnits (2 * longs - ((size + 1) / 2 + 1))
  return ⟨strings.toArray, units⟩

theorem decode_eq : decode = word >>= decodeTables := rfl

theorem decodeTables_spends (longs : Nat) : Spends (decodeTables longs) fun n index ↦
    n = 2 * max (2 * longs) index.shortCount := by
  refine short_spends.bind fun size n₂ h₂ ↦ (take_spends size).bind fun strings n₃ h₃ ↦
    .ite (fun hodd ↦ (take_spends 1).bind fun _ n₄ h₄ ↦ (decodeUnits_spends _).bind fun units n₅ h₅ ↦
      .pure ?_) fun hodd ↦ (decodeUnits_spends _).bind fun units n₅ h₅ ↦ .pure ?_
  · rw [shortCount_eq]
    simp only [List.size_toArray]
    omega
  · rw [shortCount_eq]
    simp only [List.size_toArray]
    omega

theorem decode_spends : Spends decode fun n index ↦ index.encodedSize ≤ n := by
  rw [decode_eq]
  refine word_spends.bind fun longs m hm ↦ (decodeTables_spends longs).mono fun n index hn ↦ ?_
  rw [encodedSize]
  omega

end Index

namespace Body

/-- The bytes that a body takes at least behind its tag. -/
def encodedSize : Body → Nat
  | header h => h.encodedSize
  | unit text => Text.nameSize text
  | name text => Text.nameSize text
  | segment _ content => content.encodedSize
  | relocs kind groups => RelocGroup.encodedSize kind groups
  | symbols entries => (entries.map SymbolEntry.encodedSize).sum + 4
  | externals entries => (entries.map External.encodedSize).sum + 4
  | debug data => 4 + data.size
  | overlay data => 4 + data.size
  | continuation data => 4 + data.size
  | ending => 0
  | pause => 0
  | index i => i.encodedSize

theorem length_longBytes {data : Bytes} (h : IsLongs data) :
    (Encode.longBytes data.toList).length = 4 + data.size := by
  rw [Block.longBytes_eq h, List.length_append, Bytes.length_long, Array.length_toList]

theorem length_encode_le {body : Body} {tag : Nat} (h : body.InRange tag) {bytes : List UInt8}
    (hb : body.encode (some (tag : Int)) = .ok bytes) : bytes.length ≤ body.encodedSize + 2 := by
  cases body with
  | header header => exact Nat.le_add_right_of_le (Header.length_encode_le h hb)
  | unit text => exact Nat.le_add_right_of_le (Text.length_encode_name h hb).le
  | name text => exact Nat.le_add_right_of_le (Text.length_encode_name h hb).le
  | segment kind content => exact Nat.le_add_right_of_le (SegmentContent.length_encode_le hb)
  | relocs kind groups =>
    cases hb
    exact Nat.le_add_right_of_le (RelocGroup.length_encodeAll kind groups).le
  | symbols entries =>
    obtain ⟨part, hpart, hb⟩ := Encode.bind_eq_ok.mp hb
    cases hb
    have hle := Encode.length_concat_le (fun entry hm _ ↦ SymbolEntry.length_encode_le (h entry hm)) hpart
    rw [List.length_append, Bytes.length_long, encodedSize]
    omega
  | externals entries =>
    obtain ⟨part, hpart, hb⟩ := Encode.bind_eq_ok.mp hb
    cases hb
    have hle := Encode.length_concat_le (fun entry hm _ ↦ External.length_encode_le (h entry hm)) hpart
    rw [List.length_append, Bytes.length_long, encodedSize]
    omega
  | debug data =>
    cases hb
    exact Nat.le_add_right_of_le (length_longBytes h).le
  | overlay data =>
    cases hb
    exact Nat.le_add_right_of_le (length_longBytes h).le
  | continuation data =>
    cases hb
    exact Nat.le_add_right_of_le (length_longBytes h).le
  | ending =>
    cases hb
    exact Nat.zero_le _
  | pause =>
    cases hb
    exact Nat.zero_le _
  | index index => exact Index.length_encode_le h hb

theorem decodeName_spends (what : String) :
    Spends (decodeName what) fun n text ↦ Text.nameSize text ≤ n :=
  name_spends.bind fun _ _ _ ↦ (Spends.debug _).bind fun _ _ _ ↦ .pure (by omega)

theorem decodeDebug_spends : Spends decodeDebug fun n data ↦ 4 + data.size ≤ n :=
  word_spends.bind fun _ _ _ ↦ (Spends.debug _).bind fun _ _ _ ↦
    (longBytes_spends _).mono fun _ _ _ ↦ by omega

theorem decodeBytes_spends : Spends decodeBytes fun n data ↦ 4 + data.size ≤ n :=
  word_spends.bind fun _ _ _ ↦ (longBytes_spends _).mono fun _ _ _ ↦ by omega

end Body

namespace Body

/-- Every symbol has a name. One without a name is written like the end of its table. -/
def Named : Body → Prop
  | externals entries => ∀ entry ∈ entries, entry.kind = .symbol → entry.name ≠ ""
  | _ => True

theorem Named.writable {body : Body} (h : body.Named) (hs : body.encodedSize < 2 ^ 33) :
    body.Writable := by
  cases body with
  | externals entries => exact h
  | index index =>
    rw [encodedSize, Index.encodedSize] at hs
    rw [Writable]
    omega
  | _ => trivial

end Body

namespace Block

variable {executable : Bool}

mutual

def Named : Block → Prop
  | plain _ body => body.Named
  | library _ blocks => AllNamed blocks

def AllNamed : List Block → Prop
  | [] => True
  | block :: blocks => block.Named ∧ AllNamed blocks

end

mutual

/-- The bytes that a block takes at least. -/
def encodedSize : Block → Nat
  | plain _ body => 4 + body.encodedSize
  | library _ blocks => 8 + allSize blocks

def allSize : List Block → Nat
  | [] => 0
  | block :: blocks => block.encodedSize + allSize blocks

end

theorem allSize_eq (blocks : List Block) : allSize blocks = (blocks.map encodedSize).sum := by
  induction blocks with
  | nil => rfl
  | cons block blocks ih => rw [allSize, ih, List.map_cons, List.sum_cons]

mutual

/-- Blocks with names for all symbols can be written, in less than twice the bytes that they were
read from. -/
theorem writable_of_named (block : Block) (h : block.InRange executable) (hn : block.Named)
    (hs : block.encodedSize < 2 ^ 33) :
    block.Writable ∧ block.written.length ≤ 2 * block.encodedSize :=
  match block with
  | plain frame body => by
    obtain ⟨tag, ht, ⟨hlt, _⟩, hbody⟩ := h
    rw [encodedSize] at hs ⊢
    have hw : body.Writable := Body.Named.writable hn (by omega)
    obtain ⟨bytes, hb, -, -⟩ := encodeBody_reads hlt hbody hw
    have hlength := Body.length_encode_le hbody hb
    refine ⟨hw, ?_⟩
    rw [written_eq (run_encode_plain ht (by rw [ht]; exact hb) 0), List.length_append,
      Bytes.length_long]
    omega
  | library frame blocks => by
    obtain ⟨⟨tag, ht, _⟩, hblocks⟩ := h
    rw [encodedSize] at hs ⊢
    obtain ⟨hw, hlength⟩ := allWritable_of_named blocks hblocks hn (by omega)
    obtain ⟨hall, -⟩ := run_encodeAll blocks hblocks hw
    refine ⟨⟨hw, by omega⟩, ?_⟩
    rw [written_eq (run_encode_library ht (by simpa using hall #[]) 0)]
    simp only [List.length_append, Bytes.length_long]
    omega

theorem allWritable_of_named (blocks : List Block) (h : AllInRange executable blocks)
    (hn : AllNamed blocks) (hs : allSize blocks < 2 ^ 33) :
    AllWritable blocks ∧ (allWritten blocks).length ≤ 2 * allSize blocks :=
  match blocks with
  | [] => ⟨trivial, Nat.le_refl 0⟩
  | block :: blocks => by
    rw [allSize] at hs ⊢
    obtain ⟨hw, hlength⟩ := writable_of_named block h.1 hn.1 (by omega)
    obtain ⟨hws, hlengths⟩ := allWritable_of_named blocks h.2 hn.2 (by omega)
    have hcons : allWritten (block :: blocks) = block.written ++ allWritten blocks := rfl
    refine ⟨⟨hw, hws⟩, ?_⟩
    rw [hcons, List.length_append]
    omega

end

theorem plain_spends {α : Type} {tag : Nat} {start : Int} {x : Decoder α} {body : α → Body}
    (hx : Spends x fun n a ↦ (body a).encodedSize ≤ n) :
    Spends (x >>= fun a ↦ decodeContent.plain tag start a body) fun n block ↦
      block.encodedSize ≤ 4 + n := by
  refine hx.bind fun a n hn ↦ (Spends.free (x := position) fun _ _ ↦ rfl).bind fun stop m hm ↦ .pure ?_
  rw [encodedSize]
  omega

theorem decodeContent_spends {nested : Int → Decoder (List Block)}
    (hn : ∀ stop, Spends (nested stop) fun n blocks ↦ allSize blocks ≤ n) (tag : Nat) (start : Int)
    (kind : Kind) :
    Spends (decodeContent nested tag start kind) fun n block ↦ block.encodedSize ≤ 4 + n := by
  cases kind with
  | header => exact plain_spends Header.decode_spends
  | unit => exact plain_spends (Body.decodeName_spends _)
  | name => exact plain_spends (Body.decodeName_spends _)
  | segment kind => exact plain_spends (SegmentContent.decode_spends kind tag)
  | relocs kind => exact plain_spends (RelocGroup.decodeAll_spends kind)
  | symbols => exact plain_spends SymbolEntry.decode?_spends.many
  | externals => exact plain_spends External.decode?_spends.many
  | debug => exact plain_spends Body.decodeDebug_spends
  | overlay => exact plain_spends Body.decodeBytes_spends
  | continuation => exact plain_spends Body.decodeBytes_spends
  | ending =>
    exact (Spends.free (x := position) fun _ _ ↦ rfl).bind fun _ _ _ ↦ .pure (Nat.le_add_right ..)
  | pause =>
    exact (Spends.free (x := position) fun _ _ ↦ rfl).bind fun _ _ _ ↦ .pure (Nat.le_add_right ..)
  | index => exact plain_spends Index.decode_spends
  | library =>
    refine word_spends.bind fun longs n₁ h₁ ↦ (Spends.free (x := position) fun _ _ ↦ rfl).bind
      fun here n₂ h₂ ↦ (Spends.free (x := info _) fun _ _ ↦ rfl).bind fun _ n₃ h₃ ↦
      (hn _).bind fun blocks n₄ h₄ ↦ (Spends.free (x := position) fun _ _ ↦ rfl).bind fun stop n₅ h₅ ↦ ?_
    have hlast : ∀ n : Nat, Spends (do
        let stop ← position
        return library ⟨some tag, some start, some stop⟩ blocks) fun m block ↦
        block.encodedSize ≤ 4 + (n₁ + (n₂ + (n₃ + (n₄ + (n₅ + (n + m)))))) := fun n ↦
      (Spends.free (x := position) fun _ _ ↦ rfl).bind fun _ m _ ↦ .pure (by rw [encodedSize]; omega)
    refine .ite (fun _ ↦ (Spends.free (x := warn _) fun _ _ ↦ rfl).bind fun _ n _ ↦ hlast n) fun _ ↦ ?_
    have hrest := hlast 0
    simp only [Nat.zero_add] at hrest
    exact hrest

theorem decodeWith_spends {nested : Int → Decoder (List Block)}
    (hn : ∀ stop, Spends (nested stop) fun n blocks ↦ allSize blocks ≤ n) :
    Spends (decodeWith nested executable) fun n block ↦ block.encodedSize ≤ n := by
  refine (Spends.free (x := position) fun _ _ ↦ rfl).bind fun start n₁ h₁ ↦
    word_spends.bind fun tag n₂ h₂ ↦ ?_
  cases kindOfTag? executable tag with
  | none => exact Spends.fail
  | some kind =>
    have hcontent := decodeContent_spends hn tag start kind
    refine .ite (fun _ ↦ (Spends.debug _).bind fun _ n₃ h₃ ↦ (Spends.debug _).bind fun _ n₄ h₄ ↦ ?_)
      fun _ ↦ (Spends.debug _).bind fun _ n₃ h₃ ↦ ?_
    · exact hcontent.mono fun n block h ↦ by omega
    · exact hcontent.mono fun n block h ↦ by omega

theorem spends_blocks {x : Decoder (Option Block)}
    (hx : Spends x fun n r ↦ r.elim 0 encodedSize ≤ n) :
    Spends (many x) fun n blocks ↦ allSize blocks ≤ n :=
  hx.many.mono fun n blocks h ↦ by rwa [allSize_eq]

theorem decodeNested_spends (depth : Nat) (stop : Int) :
    Spends (decodeNested executable depth stop) fun n blocks ↦ allSize blocks ≤ n := by
  induction depth generalizing stop with
  | zero => exact (Spends.free (x := position) fun _ _ ↦ rfl).bind fun _ _ _ ↦ Spends.fail
  | succ depth ih =>
    refine spends_blocks ((Spends.free (x := position) fun _ _ ↦ rfl).bind fun _ m hm ↦
      .ite (fun _ ↦ .pure (Nat.zero_le _)) fun _ ↦ (decodeWith_spends ih).bind fun block n hn ↦ .pure ?_)
    rw [Option.elim_some]
    omega

theorem nested_spends (stop : Int) :
    Spends (nested executable stop) fun n blocks ↦ allSize blocks ≤ n :=
  (Spends.free (x := remaining) fun _ _ ↦ rfl).bind fun _ _ _ ↦
    (decodeNested_spends _ stop).mono fun _ _ _ ↦ by omega

theorem decodeAll_spends :
    Spends (decodeAll executable) fun n blocks ↦ allSize blocks ≤ n := by
  have hblock : ∀ k, Spends (do return some (← decodeWith (nested executable) executable))
      fun n r ↦ r.elim 0 encodedSize ≤ k + n := fun k ↦
    (decodeWith_spends nested_spends).bind fun block n hn ↦ .pure (by rw [Option.elim_some]; omega)
  refine spends_blocks ((Spends.free (x := atEnd) fun _ _ ↦ rfl).bind fun _ n₁ _ ↦
    .ite (fun _ ↦ .pure (Nat.zero_le _)) fun _ ↦
    (Spends.free (x := remaining) fun _ _ ↦ rfl).bind fun _ n₂ _ ↦ .ite (fun _ ↦ ?_) fun _ ↦ ?_)
  · exact (Spends.free (x := position) fun _ _ ↦ rfl).bind fun _ _ _ ↦
      (Spends.fail (P := fun _ _ ↦ False)).bind fun _ _ h ↦ h.elim
  · exact (hblock (n₁ + n₂)).mono fun n r h ↦ by omega

end Block

end Hunks
