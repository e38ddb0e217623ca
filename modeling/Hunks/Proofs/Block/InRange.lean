import Mathlib
import Hunks.Proofs.Block.WellFormed
import Hunks.Proofs.Cursor

namespace Hunks

open Decoder Yields

theorem Fits.ofNat {width n : Nat} (h : n < 2 ^ (8 * width)) : Fits width (n : Int) :=
  ⟨Int.natCast_nonneg n, by exact_mod_cast h⟩

theorem isMemory_and (n : Nat) : IsMemory (n &&& memoryMask : Nat) := by
  refine ⟨_, rfl, ?_, ?_⟩
  · exact Nat.lt_of_le_of_lt Nat.and_le_right (by decide)
  · rw [Nat.and_assoc, Nat.and_self]

namespace Text

theorem isName_ofLatin1 {bytes : List UInt8} (h : (bytes.length + 3) / 4 < 2 ^ 24) :
    IsName (ofLatin1 (bytes.takeWhile (· ≠ 0))) := by
  constructor
  · intro c hc
    simp only [ofLatin1, String.toList_ofList, List.mem_map] at hc
    obtain ⟨b, hb, rfl⟩ := hc
    have hb0 := List.mem_takeWhile_imp hb
    have hlt := b.toNat_lt
    have hc : (Char.ofNat b.toNat).toNat = b.toNat := by
      rw [Char.toNat_ofNat, if_pos]
      exact Or.inl (by omega)
    rw [hc]
    refine ⟨hlt, fun h0 ↦ ?_⟩
    simp [← UInt8.toNat_inj, h0] at hb0
  · simp only [ofLatin1, String.length_ofList, List.length_map]
    have hl := (List.takeWhile_sublist (fun b : UInt8 ↦ decide (b ≠ 0)) (l := bytes)).length_le
    omega

end Text

namespace Decoder

theorem nameOfLongs_yields (longs : Int) : Yields (nameOfLongs longs) Text.IsName := by
  refine (take_yields _).bind fun bytes hb ↦ .pure (Text.isName_ofLatin1 ?_)
  omega

theorem name_yields : Yields name Text.IsName := by
  refine (any word).bind fun longs _ ↦ .ite (fun _ ↦ .pure ?_) fun _ ↦ nameOfLongs_yields _
  exact ⟨by simp, by decide⟩

theorem words_yields (n : Nat) :
    Yields (words n) fun as ↦ as.length = n ∧ ∀ a ∈ as, Fits 4 a :=
  .times fun _ ↦ word_yields.bind fun _ h ↦ .pure (.ofNat h)

theorem shorts_yields (n : Nat) :
    Yields (shorts n) fun as ↦ as.length = n ∧ ∀ a ∈ as, Fits 2 a :=
  .times fun _ ↦ short_yields.bind fun _ h ↦ .pure (.ofNat h)

theorem longBytes_yields (longs : Nat) :
    Yields (longBytes longs) fun data ↦ data.size = 4 * longs := by
  refine (take_yields _).bind fun bytes hb ↦ .pure ?_
  simp only [List.size_toArray]
  omega

end Decoder

namespace Header

theorem decodeSlot_yields (hunk : Nat) : Yields (decodeSlot hunk) Slot.InRange := by
  refine word_yields.bind fun size _ ↦ ?_
  have hs : size &&& sizeMask < 2 ^ 30 := Nat.lt_of_le_of_lt Nat.and_le_right (by decide)
  refine .ite (fun h ↦ ?_) fun h ↦ ?_
  · refine (Yields.map (Q := fun attr ↦ attr.isSome ∧ ∀ a ∈ attr, a < 2 ^ 32)
      (word_yields.mono fun a ha ↦ by simpa using ha)).bind fun attr ha ↦ (any _).bind fun _ _ ↦ .pure ?_
    exact ⟨hs, isMemory_and size, ⟨fun _ ↦ h, fun _ ↦ ha.1⟩, ha.2⟩
  · refine (Yields.pure (P := (· = none)) rfl).bind fun attr ha ↦ (any _).bind fun _ _ ↦ .pure ?_
    subst ha
    exact ⟨hs, isMemory_and size, ⟨by simp, fun h' ↦ absurd h' h⟩, by simp⟩

theorem decode_yields : Yields decode InRange := by
  have hlib : Yields (do
      let library ← name
      return if library.isEmpty then none else some library)
      fun r ↦ ∀ library ∈ r, Text.IsName library ∧ library ≠ "" := by
    refine name_yields.bind fun library hl ↦ .pure ?_
    split <;> rename_i he
    · simp
    · simp only [Option.mem_def, Option.some.injEq, forall_eq']
      exact ⟨hl, fun h ↦ he (String.isEmpty_iff.mpr h)⟩
  refine (Yields.many hlib).bind fun libraries hlibs ↦ word_yields.bind fun tableSize ht ↦
    word_yields.bind fun firstHunk hf ↦ word_yields.bind fun lastHunk hl ↦
    .ite (fun _ ↦ ?_) fun ho ↦ ?_
  · exact (fail (P := fun _ ↦ False)).bind fun _ h ↦ h.elim
  · refine (any _).bind fun _ _ ↦ (any _).bind fun _ _ ↦
      (Yields.times fun i ↦ decodeSlot_yields _).bind fun slots hs ↦ .pure ?_
    have hcount : (slots.length : Int) = (lastHunk : Int) - firstHunk + 1 := by omega
    exact ⟨hlibs, .ofNat ht, .ofNat hf, .ofNat hl, Int.ofNat_le.mpr (by omega), slots, hcount, hs.2,
      rfl, rfl, rfl⟩

end Header

namespace SegmentContent

theorem decode_yields (kind : SegmentKind) (tag : Nat) :
    Yields (decode kind tag) fun content ↦ content.InRange kind tag := by
  refine word_yields.bind fun size _ ↦ (any _).bind fun _ _ ↦ ?_
  have hs : size &&& sizeMask < 2 ^ 30 := Nat.lt_of_le_of_lt Nat.and_le_right (by decide)
  have ht : tag &&& memoryMask &&& ((size ||| tag) &&& memoryMask) = tag &&& memoryMask := by
    apply Nat.eq_of_testBit_eq
    intro i
    simp only [Nat.testBit_and, Nat.testBit_or]
    cases tag.testBit i <;> cases memoryMask.testBit i <;> simp
  have hlongs : (0 : Int) ≤ (size &&& sizeMask : Nat) ∧ ((size &&& sizeMask : Nat) : Int) < 2 ^ 30 :=
    ⟨by omega, by exact_mod_cast hs⟩
  refine .ite (fun hk ↦ .pure ?_) fun hk ↦ (any position).bind fun start _ ↦
    (longBytes_yields _).bind fun data hd ↦ .pure ?_
  · exact ⟨hlongs, isMemory_and _, ht, fun _ ↦ rfl, fun h ↦ absurd hk h⟩
  · have hsize : (data.size : Int) = 4 * ((size &&& sizeMask : Nat) : Int) := by exact_mod_cast hd
    exact ⟨hlongs, isMemory_and _, ht, fun h ↦ absurd h hk, fun _ ↦ ⟨data, rfl, hsize⟩⟩

end SegmentContent

namespace RelocGroup

theorem decodeLong?_yields : Yields decodeLong? fun r ↦ ∀ group ∈ r, group.InRange 4 := by
  refine word_yields.bind fun count hc ↦ .ite (fun _ ↦ .pure (by simp)) fun h0 ↦
    word_yields.bind fun hunk hh ↦ (words_yields count).bind fun offsets ho ↦
    (any _).bind fun _ _ ↦ .pure ?_
  rintro group ⟨rfl⟩
  exact ⟨List.ne_nil_of_length_pos (by simp only [ho.1]; omega), .ofNat (by rw [ho.1]; exact hc),
    .ofNat hh, ho.2⟩

theorem decodeShort?_yields : Yields decodeShort? fun r ↦ ∀ group ∈ r, group.InRange 2 := by
  refine short_yields.bind fun count hc ↦ .ite (fun _ ↦ .pure (by simp)) fun h0 ↦
    short_yields.bind fun hunk hh ↦ (shorts_yields count).bind fun offsets ho ↦
    (any _).bind fun _ _ ↦ .pure ?_
  rintro group ⟨rfl⟩
  exact ⟨List.ne_nil_of_length_pos (by simp only [ho.1]; omega), .ofNat (by rw [ho.1]; exact hc),
    .ofNat hh, ho.2⟩

theorem decodeAll_yields (kind : RelocKind) :
    Yields (decodeAll kind) fun groups ↦ ∀ group ∈ groups, group.InRange kind.numberBytes := by
  refine .ite (fun hs ↦ ?_) fun hs ↦ ?_
  · rw [RelocKind.numberBytes, if_pos hs]
    exact decodeShort?_yields.many.bind fun groups hg ↦
      .ite (fun _ ↦ (any _).bind fun _ _ ↦ .pure hg) fun _ ↦ .pure hg
  · rw [RelocKind.numberBytes, if_neg hs]
    exact decodeLong?_yields.many

end RelocGroup

namespace SymbolEntry

theorem decode?_yields : Yields decode? fun r ↦ ∀ entry ∈ r, entry.InRange := by
  refine name_yields.bind fun symbol hs ↦ .ite (fun _ ↦ .pure (by simp)) fun he ↦
    word_yields.bind fun value hv ↦ (any _).bind fun _ _ ↦ .pure ?_
  rintro entry ⟨rfl⟩
  exact ⟨hs, fun h ↦ he (String.isEmpty_iff.mpr h), .ofNat hv⟩

end SymbolEntry

namespace External

/-- The reader of what follows the common size of an entry. -/
def decodeTail (symbol : String) (kind : ExternalKind) (size : Option Nat) :
    Decoder (Option External) := do
  let commonSize := size.map Int.ofNat
  if kind.isDefinition then
    let value ← word
    debug s!"definition of symbol (type = {kind.name}): {symbol} = {Text.address value}"
    return some ⟨symbol, kind, some value, commonSize, none⟩
  let count ← word
  let offsets ← words count
  debug s!"{count} references to symbol {symbol} (type = {kind.name})"
  return some ⟨symbol, kind, none, commonSize, some offsets⟩

theorem decodeTail_yields {symbol : String} (hs : Text.IsName symbol) {kind : ExternalKind}
    {size : Option Nat} (hc : kind.isCommon → ∃ n, size = some n ∧ n < 2 ^ 32)
    (hp : ¬ kind.isCommon → size = none) :
    Yields (decodeTail symbol kind size) fun r ↦ ∀ entry ∈ r, entry.InRange := by
  have hcommon : kind.isCommon → ∃ n, size.map Int.ofNat = some n ∧ Fits 4 n := by
    intro h
    obtain ⟨n, rfl, hn⟩ := hc h
    exact ⟨n, rfl, .ofNat hn⟩
  have hplain : ¬ kind.isCommon → size.map Int.ofNat = none := fun h ↦ by rw [hp h]; rfl
  refine .ite (fun hd ↦ word_yields.bind fun value hv ↦ (any _).bind fun _ _ ↦ .pure ?_) fun hd ↦
    word_yields.bind fun count hn ↦ (words_yields count).bind fun offsets ho ↦
    (any _).bind fun _ _ ↦ .pure ?_
  · rintro entry ⟨rfl⟩
    exact ⟨hs, hcommon, hplain, fun _ ↦ ⟨⟨_, rfl, .ofNat hv⟩, rfl⟩, fun h ↦ absurd hd h⟩
  · rintro entry ⟨rfl⟩
    exact ⟨hs, hcommon, hplain, fun h ↦ absurd h hd,
      fun _ ↦ ⟨rfl, _, rfl, .ofNat (by rw [ho.1]; exact hn), ho.2⟩⟩

theorem decode?_yields : Yields decode? fun r ↦ ∀ entry ∈ r, entry.InRange := by
  refine word_yields.bind fun head _ ↦ .ite (fun _ ↦ .pure (by simp)) fun _ ↦
    (nameOfLongs_yields _).bind fun symbol hs ↦ ?_
  cases ExternalKind.ofNumber? (head / 0x1000000) with
  | none => exact fail
  | some kind =>
    refine .ite (fun hc ↦ ?_) fun hc ↦ ?_
    · exact (Yields.map (Q := fun size ↦ ∃ n, size = some n ∧ n < 2 ^ 32)
        (word_yields.mono fun n hn ↦ ⟨n, rfl, hn⟩)).bind fun size h ↦
          decodeTail_yields hs (fun _ ↦ h) fun h' ↦ absurd hc h'
    · exact (Yields.pure (P := (· = none)) rfl).bind fun size h ↦
        decodeTail_yields hs (fun h' ↦ absurd h' hc) fun _ ↦ h

end External

namespace IndexDefinition

theorem decode_yields : Yields decode InRange :=
  short_yields.bind fun _ h₁ ↦ short_yields.bind fun _ h₂ ↦ short_yields.bind fun _ h₃ ↦
    .pure ⟨.ofNat h₁, .ofNat h₂, .ofNat h₃⟩

end IndexDefinition

namespace IndexHunk

theorem decode_yields : Yields decode InRange := by
  refine short_yields.bind fun nameOffset hn ↦ short_yields.bind fun longs hl ↦
    short_yields.bind fun memoryType hm ↦ short_yields.bind fun count hc ↦
    (shorts_yields count).bind fun refs hr ↦ short_yields.bind fun count' hc' ↦
    (Yields.times fun _ ↦ IndexDefinition.decode_yields).bind fun definitions hd ↦ .pure ?_
  exact ⟨.ofNat hn, .ofNat hl, .ofNat hm, .ofNat (by rw [hr.1]; exact hc), hr.2,
    .ofNat (by rw [hd.1]; exact hc'), hd.2⟩

end IndexHunk

namespace IndexUnit

theorem decode_yields : Yields decode InRange := by
  refine short_yields.bind fun nameOffset hn ↦ short_yields.bind fun firstHunkOffset hf ↦
    short_yields.bind fun count hc ↦
    (Yields.times fun _ ↦ IndexHunk.decode_yields).bind fun hunks hh ↦ .pure ?_
  exact ⟨.ofNat hn, .ofNat hf, .ofNat (by rw [hh.1]; exact hc), hh.2⟩

end IndexUnit

namespace Index

theorem decodeUnits_yields (left : Int) :
    Yields (decodeUnits left) fun units ↦ ∀ unit ∈ units, unit.InRange := by
  have hunit : ∀ left : Int, Yields (do
      if left ≤ 1 then
        return none
      let unit ← IndexUnit.decode
      return some (unit, left - unit.shortCount))
      fun r ↦ ∀ p ∈ r, IndexUnit.InRange p.1 := fun left ↦
    .ite (fun _ ↦ .pure (by simp)) fun _ ↦ IndexUnit.decode_yields.bind fun unit hu ↦
      .pure (by rintro p ⟨rfl⟩; exact hu)
  exact (Yields.manyWith hunit).bind fun _ hu ↦
    .ite (fun _ ↦ (any _).bind fun _ _ ↦ .pure hu) fun _ ↦ .pure hu

theorem decode_yields : Yields decode InRange := by
  refine (any word).bind fun longs _ ↦ short_yields.bind fun size hs ↦
    (take_yields size).bind fun strings ht ↦ ?_
  have hsize : Fits 2 (strings.toArray.size : Int) := by
    rw [List.size_toArray, ht.2]
    exact .ofNat hs
  exact .ite (fun _ ↦ (any _).bind fun _ _ ↦ (decodeUnits_yields _).bind fun units hu ↦
    .pure ⟨hsize, hu⟩) fun _ ↦ (decodeUnits_yields _).bind fun units hu ↦ .pure ⟨hsize, hu⟩

end Index

namespace Body

theorem longBytes_isLongs {longs : Nat} (h : longs < 2 ^ 32) : Yields (longBytes longs) IsLongs :=
  (longBytes_yields longs).mono fun data hd ↦ ⟨by omega, by omega⟩

theorem decodeName_yields (what : String) : Yields (decodeName what) Text.IsName :=
  name_yields.bind fun _ h ↦ (any _).bind fun _ _ ↦ .pure h

theorem decodeDebug_yields : Yields decodeDebug IsLongs :=
  word_yields.bind fun _ h ↦ (any _).bind fun _ _ ↦ longBytes_isLongs h

theorem decodeBytes_yields : Yields decodeBytes IsLongs :=
  word_yields.bind fun _ h ↦ longBytes_isLongs h

end Body

theorem Kind.number_of_ofNumber? {n : Nat} {kind : Kind} (h : ofNumber? n = some kind) :
    kind.number = n := by
  unfold ofNumber? at h
  split at h <;> cases h <;> rfl

namespace Block

theorem and_sizeMask (tag : Nat) : tag &&& sizeMask = tag % 2 ^ 30 :=
  Nat.and_two_pow_sub_one_eq_mod tag 30

theorem isTag_of_kindOfTag? {executable : Bool} {tag : Nat} {kind : Kind} (ht : tag < 2 ^ 32)
    (h : kindOfTag? executable tag = some kind) : IsTag executable kind tag := by
  unfold kindOfTag? at h
  rw [and_sizeMask] at h
  refine ⟨ht, ?_⟩
  split at h <;> rename_i hk
  · have hn := Kind.number_of_ofNumber? hk
    cases executable
    · cases h
      exact Or.inl ⟨hn.symm, by simp⟩
    · cases h
      exact Or.inr ⟨rfl, rfl, hn.symm⟩
  · refine Or.inl ⟨(Kind.number_of_ofNumber? h).symm, ?_⟩
    rintro ⟨-, rfl⟩
    exact hk h

variable {executable : Bool}

theorem plain_yields {α : Type} {tag : Nat} {start : Int} {kind : Kind}
    (ht : IsTag executable kind tag) {x : Decoder α} {P : α → Prop} {body : α → Body}
    (hx : Yields x P) (hk : ∀ a, (body a).kind = kind) (hb : ∀ a, P a → (body a).InRange tag) :
    Yields (x >>= fun a ↦ decodeContent.plain tag start a body) (InRange executable) := by
  refine hx.bind fun a ha ↦ (any _).bind fun stop _ ↦ .pure ⟨tag, rfl, ?_, hb a ha⟩
  rw [hk]
  exact ht

theorem decodeContent_yields {nested : Int → Decoder (List Block)}
    (hn : ∀ stop, Yields (nested stop) (AllInRange executable)) {tag : Nat} {kind : Kind}
    (ht : IsTag executable kind tag) (start : Int) :
    Yields (decodeContent nested tag start kind) (InRange executable) := by
  cases kind with
  | header => exact plain_yields ht Header.decode_yields (fun _ ↦ rfl) fun _ h ↦ h
  | unit => exact plain_yields ht (Body.decodeName_yields _) (fun _ ↦ rfl) fun _ h ↦ h
  | name => exact plain_yields ht (Body.decodeName_yields _) (fun _ ↦ rfl) fun _ h ↦ h
  | segment kind =>
    exact plain_yields ht (SegmentContent.decode_yields kind tag) (fun _ ↦ rfl) fun _ h ↦ h
  | relocs kind => exact plain_yields ht (RelocGroup.decodeAll_yields kind) (fun _ ↦ rfl) fun _ h ↦ h
  | symbols => exact plain_yields ht SymbolEntry.decode?_yields.many (fun _ ↦ rfl) fun _ h ↦ h
  | externals => exact plain_yields ht External.decode?_yields.many (fun _ ↦ rfl) fun _ h ↦ h
  | debug => exact plain_yields ht Body.decodeDebug_yields (fun _ ↦ rfl) fun _ h ↦ h
  | overlay => exact plain_yields ht Body.decodeBytes_yields (fun _ ↦ rfl) fun _ h ↦ h
  | continuation => exact plain_yields ht Body.decodeBytes_yields (fun _ ↦ rfl) fun _ h ↦ h
  | ending => exact (any _).bind fun _ _ ↦ .pure ⟨tag, rfl, ht, trivial⟩
  | pause => exact (any _).bind fun _ _ ↦ .pure ⟨tag, rfl, ht, trivial⟩
  | index => exact plain_yields ht Index.decode_yields (fun _ ↦ rfl) fun _ h ↦ h
  | library =>
    refine (any word).bind fun longs _ ↦ (any position).bind fun here _ ↦ (any _).bind fun _ _ ↦
      (hn _).bind fun blocks hb ↦ (any position).bind fun stop _ ↦ ?_
    have hlast : Yields (do
        let stop ← position
        return library ⟨some tag, some start, some stop⟩ blocks) (InRange executable) :=
      (any position).bind fun _ _ ↦ .pure ⟨⟨tag, rfl, ht⟩, hb⟩
    exact .ite (fun _ ↦ (any _).bind fun _ _ ↦ hlast) fun _ ↦ hlast

theorem decodeWith_yields {nested : Int → Decoder (List Block)}
    (hn : ∀ stop, Yields (nested stop) (AllInRange executable)) :
    Yields (decodeWith nested executable) (InRange executable) := by
  refine (any position).bind fun start _ ↦ word_yields.bind fun tag ht ↦ ?_
  cases hk : kindOfTag? executable tag with
  | none => exact fail
  | some kind =>
    have hcontent := decodeContent_yields hn (isTag_of_kindOfTag? ht hk) start
    exact .ite (fun _ ↦ (any _).bind fun _ _ ↦ (any _).bind fun _ _ ↦ hcontent)
      fun _ ↦ (any _).bind fun _ _ ↦ hcontent

theorem allInRange_iff (blocks : List Block) :
    AllInRange executable blocks ↔ ∀ block ∈ blocks, block.InRange executable := by
  induction blocks with
  | nil => simp [AllInRange]
  | cons block blocks ih => simp [AllInRange, ih]

theorem decodeNested_yields (depth : Nat) (stop : Int) :
    Yields (decodeNested executable depth stop) (AllInRange executable) := by
  induction depth generalizing stop with
  | zero => exact (any position).bind fun _ _ ↦ fail
  | succ depth ih =>
    refine (Yields.many (P := InRange executable) ?_).mono fun blocks ↦ (allInRange_iff blocks).mpr
    exact (any position).bind fun _ _ ↦ .ite (fun _ ↦ .pure (by simp)) fun _ ↦
      (decodeWith_yields ih).bind fun block hb ↦ .pure (by rintro _ ⟨rfl⟩; exact hb)

theorem nested_yields (stop : Int) : Yields (nested executable stop) (AllInRange executable) :=
  (any _).bind fun _ _ ↦ decodeNested_yields _ stop

/-- Every number of a decoded block fits its field. -/
theorem decodeAll_yields : Yields (decodeAll executable) (AllInRange executable) := by
  refine (Yields.many (P := InRange executable) ?_).mono fun blocks ↦ (allInRange_iff blocks).mpr
  have hblock : Yields (do return some (← decodeWith (nested executable) executable))
      fun r ↦ ∀ block ∈ r, InRange executable block :=
    (decodeWith_yields nested_yields).bind fun block hb ↦ .pure (by rintro _ ⟨rfl⟩; exact hb)
  exact (any atEnd).bind fun _ _ ↦ .ite (fun _ ↦ .pure (by simp)) fun _ ↦ (any _).bind fun _ _ ↦
    .ite (fun _ ↦ (any _).bind fun _ _ ↦ (fail (P := fun _ ↦ False)).bind fun _ h ↦ h.elim)
      fun _ ↦ hblock

end Block

end Hunks
