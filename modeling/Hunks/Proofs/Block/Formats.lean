import Mathlib
import Hunks.Proofs.Block.InRange
import Hunks.Proofs.Reads

namespace Hunks

open Decoder

theorem Fits.eq_ofNat {width : Nat} {n : Int} (h : Fits width n) :
    ∃ m : Nat, n = m ∧ m < 2 ^ (8 * width) := by
  obtain ⟨m, rfl⟩ := Int.eq_ofNat_of_zero_le h.1
  exact ⟨m, rfl, by exact_mod_cast h.2⟩

namespace Bytes

theorem low32_natCast {n : Nat} (h : n < 2 ^ 32) : low32 n = n := by
  rw [low32]
  omega

theorem length_long (n : Int) : (long n).length = 4 := length_ofInt 4 n

theorem length_short (n : Int) : (short n).length = 2 := length_ofInt 2 n

theorem long_ne_nil (n : Int) : long n ≠ [] := List.ne_nil_of_length_pos (by simp [length_long])

end Bytes

namespace Block

/-- Memory bits and a size share a long word. -/
theorem or_masks {size flags : Nat} (hs : size < 2 ^ 30) (hf : flags &&& memoryMask = flags) :
    (size ||| flags) &&& sizeMask = size ∧ (size ||| flags) &&& memoryMask = flags := by
  have hdisjoint : flags &&& sizeMask = 0 := by
    rw [← hf, Nat.and_assoc]
    exact Nat.and_zero flags
  have hsize : size &&& sizeMask = size := by
    rw [show sizeMask = 2 ^ 30 - 1 from rfl, Nat.and_two_pow_sub_one_eq_mod, Nat.mod_eq_of_lt hs]
  have hmemory : size &&& memoryMask = 0 := by
    rw [← hsize, Nat.and_assoc]
    exact Nat.and_zero size
  rw [Nat.and_or_distrib_right, Nat.and_or_distrib_right, hsize, hdisjoint, hmemory, hf]
  exact ⟨Nat.or_zero size, Nat.zero_or flags⟩

end Block

namespace Decoder

variable {window : Window} {pos : Nat}

theorem reads_numbers {size : Nat} {as : List Int} (h : ∀ a ∈ as, Fits size a) :
    Reads (times as.length fun _ ↦ do return ((← number size : Nat) : Int)) window pos
      (as.map (Bytes.ofInt size)).flatten as := by
  refine reads_times (List.forall₂_map_right_iff.mpr (List.forall₂_same.mpr fun a ha _ pos ↦ ?_))
  obtain ⟨n, rfl, hn⟩ := (h a ha).eq_ofNat
  exact (reads_ofInt hn).bind_pure

theorem length_numbers (size : Nat) (as : List Int) :
    (as.map (Bytes.ofInt size)).flatten.length = size * as.length := by
  induction as with
  | nil => rfl
  | cons a as ih =>
    rw [List.map_cons, List.flatten_cons, List.length_append, ih, Bytes.length_ofInt,
      List.length_cons, Nat.mul_succ, Nat.add_comm]

theorem undoes_name {text : String} (h : Text.IsName text) :
    Undoes name 4 (Encode.name text) text := by
  have hl := Text.length_padded text
  refine ⟨_, by rw [Encode.name, Text.paddedName_eq h]; rfl, ?_, ?_, fun _ _ ↦ reads_name h⟩
  · simp [Bytes.long_ne_nil]
  · rw [List.length_append, Bytes.length_long, hl]
    omega

theorem reads_longBytes {data : Bytes} {longs : Nat} (h : data.size = longs * 4) :
    Reads (longBytes longs) window pos data.toList data :=
  (reads_take (by rw [Array.length_toList]; omega)).bind_pure (f := List.toArray)

/-- An empty name ends a list of names. -/
theorem reads_noName : Reads name window pos (Bytes.long 0) "" := by
  have h : Reads name window pos (Bytes.long ((Text.padded "").length / 4) ++ Text.padded "") "" :=
    reads_name ⟨by simp, by decide⟩
  simpa [Text.padded, Bytes.padLong] using h

end Decoder

namespace Header

theorem reads_slot {slot : Slot} (h : slot.InRange) (i : Nat) (window : Window) (pos : Nat) :
    Reads (decodeSlot i) window pos
      (encodeSlot slot.size slot.memFlags (slot.memAttr.map Int.ofNat)) slot := by
  obtain ⟨flags, hflags, hlt, hf⟩ := h.flags
  obtain rfl := Int.ofNat_inj.mp hflags
  have hs := h.size
  obtain ⟨hsize, hmemory⟩ := Block.or_masks hs hf
  rw [encodeSlot, Bytes.low32_natCast (by omega), Bytes.low32_natCast hlt, hf]
  refine (reads_word (Nat.or_lt_two_pow (by omega) hlt)).bind ?_
  rw [hmemory, hsize]
  by_cases hm : slot.memFlags = memoryMask
  · obtain ⟨attr, ha⟩ := Option.isSome_iff_exists.mp (h.attr.mpr hm)
    rw [if_pos hm, if_pos hm, ha]
    have hattr : Reads (some <$> word) window (pos + 4) (Bytes.long attr) (some attr) :=
      (reads_word (h.attr_lt attr ha)).map some
    have he : (⟨slot.size, slot.memFlags, some attr⟩ : Slot) = slot := by rw [← ha]
    rw [← he]
    exact hattr.bind_last ((reads_debug _).bind (reads_pure _))
  · have ha : slot.memAttr = none := by
      rw [← Option.not_isSome_iff_eq_none]
      exact fun hsome ↦ hm (h.attr.mp hsome)
    have he : (⟨slot.size, slot.memFlags, none⟩ : Slot) = slot := by rw [← ha]
    rw [if_neg hm, if_neg hm, ← he]
    exact (reads_pure _).bind ((reads_debug _).bind (reads_pure _))

theorem encodeSlots_eq (slots : List Slot) :
    encodeSlots (slots.map fun slot ↦ (slot.size : Int)) (slots.map fun slot ↦ (slot.memFlags : Int))
        (slots.map fun slot ↦ slot.memAttr.map Int.ofNat) =
      (slots.map fun slot ↦
        encodeSlot slot.size slot.memFlags (slot.memAttr.map Int.ofNat)).flatten := by
  induction slots with
  | nil => rfl
  | cons slot slots ih => rw [List.map_cons, List.map_cons, List.map_cons, encodeSlots, ih]; rfl

theorem dvd_length_slot (size flags : Int) (attr : Option Int) :
    4 ∣ (encodeSlot size flags attr).length := by
  rw [encodeSlot, List.length_append, Bytes.length_long]
  split
  · rw [Bytes.length_long]
    decide
  · decide

/-- The names of libraries end at an empty one. -/
theorem undoes_libraries {names : List String}
    (h : ∀ library ∈ names, Text.IsName library ∧ library ≠ "") :
    ∃ bytes, Encode.concat Encode.name names = .ok bytes ∧ 4 ∣ bytes.length ∧ ∀ window pos, Reads (many do
      let library ← name
      return if library.isEmpty then none else some library) window pos
      (bytes ++ Bytes.long 0) names := by
  have hname : ∀ library ∈ names, Undoes (do
      let library ← name
      return if library.isEmpty then none else some library) 4 (Encode.name library)
      (some library) := by
    intro library hm
    obtain ⟨bytes, hb, hnil, hd, hr⟩ := undoes_name (h library hm).1
    refine ⟨bytes, hb, hnil, hd, fun window pos ↦ ?_⟩
    have hr' := (hr window pos).bind_pure
      (f := fun library ↦ if library.isEmpty then none else some library)
    rwa [if_neg (fun he ↦ (h library hm).2 (String.isEmpty_iff.mp he))] at hr'
  obtain ⟨bytes, hb, hd, hr⟩ := concat_many hname
  refine ⟨bytes, hb, hd, hr (Bytes.long 0) fun window pos ↦ ?_⟩
  exact reads_noName.bind_pure (f := fun library ↦ if library.isEmpty then none else some library)

theorem undoes_encode {header : Header} (h : header.InRange) :
    Undoes decode 4 header.encode header := by
  obtain ⟨bytes, hb, hd, hr⟩ := undoes_libraries h.libraries
  obtain ⟨slots, hcount, hslots, hsizes, hflags, hattrs⟩ := h.slots
  obtain ⟨tableSize, htable, htlt⟩ := h.tableSize.eq_ofNat
  obtain ⟨firstHunk, hfirst, hflt⟩ := h.firstHunk.eq_ofNat
  obtain ⟨lastHunk, hlast, hllt⟩ := h.lastHunk.eq_ofNat
  have hordered := h.ordered
  obtain ⟨names, _, _, _, _, _, _⟩ := header
  subst htable hfirst hlast hsizes hflags hattrs
  have hlist : List.Forall₂ (fun slot part ↦ 4 ∣ part.length ∧ ∀ i window pos,
      Reads (decodeSlot (firstHunk + i)) window pos part slot) slots
      (slots.map fun slot ↦ encodeSlot slot.size slot.memFlags (slot.memAttr.map Int.ofNat)) :=
    List.forall₂_map_right_iff.mpr (List.forall₂_same.mpr fun slot hm ↦
      ⟨dvd_length_slot _ _ _, fun _ ↦ reads_slot (hslots slot hm) _⟩)
  refine ⟨_, by rw [encode, hb]; rfl, by simp [Bytes.long_ne_nil], ?_, fun window pos ↦ ?_⟩
  · have hslot := dvd_flatten hlist fun _ _ h ↦ h.1
    rw [encodeSlots_eq]
    simp only [List.length_append, Bytes.length_long]
    omega
  · simp only [List.append_assoc]
    rw [encodeSlots_eq, ← List.append_assoc bytes]
    refine (hr window pos).bind ((reads_word htlt).bind ((reads_word hflt).bind
      ((reads_word hllt).bind ?_)))
    have hn : lastHunk + 1 - firstHunk = slots.length := by
      simp only at hcount
      omega
    rw [if_neg (by simp only at hordered; omega), hn]
    refine (reads_debug _).bind ((reads_debug _).bind ?_)
    exact (reads_times (hlist.imp fun _ _ h i pos ↦ h.2 i window pos)).bind_pure

end Header

namespace SegmentContent

theorem low32_not {tag : Nat} (ht : tag < 2 ^ 32) : Bytes.low32 (-1 - tag) = 2 ^ 32 - (tag + 1) := by
  rw [Bytes.low32]
  omega

/-- The memory bits of the tag and those of the size give all the flags. -/
theorem or_tag {tag flags : Nat} (ht : tag < 2 ^ 32) (hf : flags &&& memoryMask = flags)
    (htagged : tag &&& memoryMask &&& flags = tag &&& memoryMask) :
    (flags &&& Bytes.low32 (-1 - tag) &&& memoryMask) ||| (tag &&& memoryMask) = flags := by
  rw [low32_not ht]
  apply Nat.eq_of_testBit_eq
  intro i
  have hf := congrArg (Nat.testBit · i) hf
  have htagged := congrArg (Nat.testBit · i) htagged
  simp only [Nat.testBit_and] at hf htagged
  simp only [Nat.testBit_and, Nat.testBit_or, Nat.testBit_two_pow_sub_succ ht]
  cases hm : memoryMask.testBit i with
  | false => simpa [hm] using hf
  | true =>
    have hi : i < 32 := by
      by_contra hge
      have hlt : memoryMask < 2 ^ i :=
        Nat.lt_of_lt_of_le (by decide) (Nat.pow_le_pow_right (by decide) (Nat.not_lt.mp hge))
      rw [Nat.testBit_lt_two_pow hlt] at hm
      cases hm
    cases ht : tag.testBit i <;> cases hb : flags.testBit i <;> simp_all

/-- The word in front of a segment holds its size and the flags that are not in its tag. -/
theorem sizeWord_masks {longs rest flags tag : Nat} (hl : longs < 2 ^ 30)
    (hrest : rest &&& memoryMask = rest) (hflags : rest ||| (tag &&& memoryMask) = flags) :
    longs ||| rest < 2 ^ 32 ∧ (longs ||| rest) &&& sizeMask = longs ∧
      (longs ||| rest ||| tag) &&& memoryMask = flags := by
  obtain ⟨hsize, hmask⟩ := Block.or_masks hl hrest
  have hlt : rest < 2 ^ 32 := by
    rw [← hrest]
    exact Nat.lt_of_le_of_lt Nat.and_le_right (by decide)
  refine ⟨Nat.or_lt_two_pow (by omega) hlt, hsize, ?_⟩
  rw [Nat.and_or_distrib_right, hmask, hflags]

theorem encode_reads {content : SegmentContent} {kind : SegmentKind} {tag : Nat}
    (ht : tag < 2 ^ 32) (h : content.InRange kind tag) :
    ∃ bytes, content.encode kind (some (tag : Int)) = .ok bytes ∧ 4 ∣ bytes.length ∧
      ∀ window pos, Reads (decode kind tag) window pos bytes
        { content with dataOffset := if kind = .bss then none else some ((pos + 4 : Nat) : Int) } := by
  obtain ⟨longs, hlongs⟩ := Int.eq_ofNat_of_zero_le h.size.1
  obtain ⟨flags, hflags, hlt, hf⟩ := h.flags
  have hl : longs < 2 ^ 30 := by
    have hsize := h.size.2
    omega
  have htagged := h.tagged
  rw [hflags, Int.toNat_natCast] at htagged
  have hmemory := or_tag ht hf htagged
  generalize hrest : flags &&& Bytes.low32 (-1 - tag) &&& memoryMask = rest at hmemory
  have hrestMemory : rest &&& memoryMask = rest := by rw [← hrest, Nat.and_assoc, Nat.and_self]
  obtain ⟨hword, hsize, hread⟩ := sizeWord_masks hl hrestMemory hmemory
  have hencode : content.encode kind (some (tag : Int)) = do
      if kind = .bss then
        return Bytes.long (longs ||| rest : Nat)
      return Bytes.long (longs ||| rest : Nat) ++ (← Encode.present content.data).toList := by
    rw [encode, Encode.present, hflags, hlongs, Bytes.low32_natCast hlt,
      Bytes.low32_natCast (by omega), ← hrest]
    rfl
  obtain ⟨_, _, dataOffset, data⟩ := content
  subst hlongs hflags
  by_cases hk : kind = .bss
  · have hdata := h.bss hk
    subst hdata
    refine ⟨_, by rw [hencode, if_pos hk]; rfl, by rw [Bytes.length_long], fun window pos ↦ ?_⟩
    refine (reads_word hword).bind_last ((reads_debug _).bind ?_)
    rw [if_pos hk, hsize, hread, if_pos hk]
    exact reads_pure _
  · obtain ⟨bytes, hdata, hbytes⟩ := h.stored hk
    subst hdata
    refine ⟨_, by rw [hencode, if_neg hk]; rfl, ?_, fun window pos ↦ ?_⟩
    · rw [List.length_append, Bytes.length_long, Array.length_toList]
      simp only at hbytes
      omega
    · refine (reads_word hword).bind ((reads_debug _).bind ?_)
      rw [if_neg hk, hsize, hread, if_neg hk, Bytes.length_long]
      refine reads_position.bind_first ?_
      exact (reads_longBytes (by simp only at hbytes; omega)).bind_pure

end SegmentContent

namespace RelocGroup

/-- The reader of a group whose numbers have this size. -/
def decode? (size : Nat) (text : Nat → Nat → String) : Decoder (Option RelocGroup) := do
  let count ← number size
  if count = 0 then
    return none
  let hunk ← number size
  let offsets ← times count fun _ ↦ do return ((← number size : Nat) : Int)
  debug (text count hunk)
  return some ⟨hunk, offsets⟩

theorem reads_group {size : Nat} {group : RelocGroup} (h : group.InRange size)
    (text : Nat → Nat → String) (window : Window) (pos : Nat) :
    Reads (decode? size text) window pos (encode (Bytes.ofInt size) group) (some group) := by
  obtain ⟨hunk, hhunk, hlt⟩ := h.hunk.eq_ofNat
  have hcount : group.offsets.length < 2 ^ (8 * size) := by exact_mod_cast h.count.2
  have hne : group.offsets.length ≠ 0 := fun he ↦ h.nonempty (List.length_eq_zero_iff.mp he)
  obtain ⟨_, offsets⟩ := group
  subst hhunk
  rw [encode, List.append_assoc]
  refine (reads_ofInt hcount).bind ?_
  rw [if_neg hne]
  exact (reads_ofInt hlt).bind ((reads_numbers h.offsets).bind_last
    ((reads_debug _).bind (reads_pure _)))

theorem reads_noGroup (size : Nat) (text : Nat → Nat → String) (window : Window) (pos : Nat) :
    Reads (decode? size text) window pos (Bytes.ofInt size 0) none :=
  (reads_ofInt (n := 0) (Nat.two_pow_pos _)).bind_last (reads_pure none)

theorem length_encode (size : Nat) (group : RelocGroup) :
    (encode (Bytes.ofInt size) group).length = size * (group.offsets.length + 2) := by
  rw [encode, List.length_append, List.length_append, length_numbers, Bytes.length_ofInt,
    Bytes.length_ofInt]
  ring

theorem length_groups (size : Nat) (groups : List RelocGroup) :
    (groups.map (encode (Bytes.ofInt size))).flatten.length + size = size * shortCount groups := by
  induction groups with
  | nil => simp [shortCount]
  | cons group groups ih =>
    rw [List.map_cons, List.flatten_cons, List.length_append, length_encode, Nat.add_assoc, ih,
      ← Nat.mul_add]
    rfl

theorem reads_groups {size : Nat} (hs : 0 < size) {groups : List RelocGroup}
    (h : ∀ group ∈ groups, group.InRange size) (text : Nat → Nat → String) (window : Window)
    (pos : Nat) : Reads (many (decode? size text)) window pos
      ((groups.map (encode (Bytes.ofInt size))).flatten ++ Bytes.ofInt size 0) groups := by
  refine reads_many (List.forall₂_map_right_iff.mpr (List.forall₂_same.mpr fun group hm ↦ ?_))
    (reads_noGroup size text window)
  refine ⟨List.ne_nil_of_length_pos ?_, reads_group (h group hm) text window⟩
  rw [length_encode]
  exact Nat.mul_pos hs (Nat.succ_pos _)

theorem encodeAll_reads {kind : RelocKind} {groups : List RelocGroup}
    (h : ∀ group ∈ groups, group.InRange kind.numberBytes) :
    4 ∣ (encodeAll kind groups).length ∧
      ∀ window pos, Reads (decodeAll kind) window pos (encodeAll kind groups) groups := by
  by_cases hs : kind.isShort
  · rw [RelocKind.numberBytes, if_pos hs] at h
    have hlength : (groups.map (encode Bytes.short)).flatten.length + 2 = 2 * shortCount groups :=
      length_groups 2 groups
    have hgroups : ∀ window pos, Reads (many decodeShort?) window pos
        ((groups.map (encode Bytes.short)).flatten ++ Bytes.short 0) groups :=
      reads_groups (by decide) h _
    rw [encodeAll, if_pos hs, decodeAll, if_pos hs]
    by_cases hodd : shortCount groups % 2 = 1
    · rw [if_pos hodd]
      refine ⟨?_, fun window pos ↦ (hgroups window pos).bind ?_⟩
      · simp only [List.length_append, Bytes.length_short]
        omega
      · rw [if_pos hodd]
        exact (reads_short (n := 0) (by decide)).bind_pure
    · rw [if_neg hodd]
      refine ⟨?_, fun window pos ↦ (hgroups window pos).bind ?_⟩
      · simp only [List.length_append, Bytes.length_short, List.length_nil]
        omega
      · rw [if_neg hodd]
        exact reads_pure groups
  · rw [RelocKind.numberBytes, if_neg hs] at h
    have hlength : (groups.map (encode Bytes.long)).flatten.length + 4 = 4 * shortCount groups :=
      length_groups 4 groups
    rw [encodeAll, if_neg hs, decodeAll, if_neg hs]
    refine ⟨?_, fun window pos ↦ ?_⟩
    · rw [List.length_append, Bytes.length_long]
      omega
    · exact reads_groups (by decide) h _ window pos

end RelocGroup

namespace SymbolEntry

theorem undoes_encode {entry : SymbolEntry} (h : entry.InRange) :
    Undoes decode? 4 entry.encode (some entry) := by
  obtain ⟨value, hvalue, hlt⟩ := h.value.eq_ofNat
  obtain ⟨bytes, hb, hnil, hd, hr⟩ := undoes_name h.name
  have hnamed := h.named
  obtain ⟨symbol, _⟩ := entry
  subst hvalue
  refine ⟨_, by rw [encode, hb]; rfl, by simp [hnil], ?_, fun window pos ↦ ?_⟩
  · rw [List.length_append, Bytes.length_long]
    omega
  · refine (hr window pos).bind ?_
    rw [if_neg (fun he ↦ hnamed (String.isEmpty_iff.mp he))]
    exact (reads_word hlt).bind_last ((reads_debug _).bind (reads_pure _))

theorem reads_end (window : Window) (pos : Nat) :
    Reads decode? window pos (Bytes.long 0) none :=
  reads_noName.bind_last (reads_pure none)

end SymbolEntry

namespace External

/-- The long word in front of an entry. -/
def head (kind : ExternalKind) (text : String) : Nat :=
  kind.number * 2 ^ 24 + (text.length + 3) / 4

theorem number_lt (kind : ExternalKind) : kind.number < 2 ^ 8 := by
  cases kind <;> decide

theorem encode_head {kind : ExternalKind} {text : String} (h : Text.IsName text) :
    Bytes.low32 (kind.number * 0x1000000) ||| Bytes.low32 ((Text.padded text).length / 4 : Nat) =
      head kind text := by
  have hl := h.2
  have hn := number_lt kind
  have hlongs : (Text.padded text).length / 4 = (text.length + 3) / 4 := by
    rw [Text.length_padded]
    omega
  have hnumber : Bytes.low32 (kind.number * 0x1000000) = 2 ^ 24 * kind.number := by
    rw [Bytes.low32]
    omega
  rw [hlongs, hnumber, Bytes.low32_natCast (by omega), ← Nat.two_pow_add_eq_or_of_lt hl,
    Nat.mul_comm, head]

/-- Only a symbol without a name starts like the end of the table. -/
theorem head_ne_zero {kind : ExternalKind} {text : String} (h : kind = .symbol → text ≠ "") :
    head kind text ≠ 0 := by
  by_cases hk : kind = .symbol
  · have hlen : text.toList.length ≠ 0 := fun he ↦
      h hk (String.toList_inj.mp (List.length_eq_zero_iff.mp he))
    rw [String.length_toList] at hlen
    rw [head]
    omega
  · have hn : 0 < kind.number := by
      cases kind <;> first | exact absurd rfl hk | decide
    rw [head]
    omega

theorem reads_head {kind : ExternalKind} {text : String} (h : Text.IsName text)
    (hs : kind = .symbol → text ≠ "") {size : Option Nat} {part bytes : List UInt8}
    {window : Window} {pos : Nat} {entry : External}
    (hpart : ∀ pos, Reads (if kind.isCommon then some <$> word else pure none) window pos part size)
    (htail : ∀ pos, Reads (decodeTail text kind size) window pos bytes (some entry)) :
    Reads decode? window pos
      (Bytes.long (head kind text) ++ (Text.padded text ++ (part ++ bytes))) (some entry) := by
  have hl := h.2
  have hn := number_lt kind
  have hlt : head kind text < 2 ^ 32 := by
    rw [head]
    omega
  have hmod : head kind text % 2 ^ 24 = (text.length + 3) / 4 := by
    rw [head]
    omega
  have hdiv : head kind text / 0x1000000 = kind.number := by
    rw [head]
    omega
  refine (reads_word hlt).bind ?_
  rw [if_neg (head_ne_zero hs), hdiv]
  refine (reads_nameOfLongs h hmod).bind ?_
  simp only [ExternalKind.ofNumber?_number]
  by_cases hc : kind.isCommon
  · simp only [if_pos hc] at hpart ⊢
    exact (hpart _).bind (htail _)
  · simp only [if_neg hc] at hpart ⊢
    exact (hpart _).bind (htail _)

/-- Only a common symbol has a size. -/
theorem size_reads {entry : External} (h : entry.InRange) :
    ∃ (size : Option Nat) (part : List UInt8), entry.commonSize = size.map Int.ofNat ∧
      4 ∣ part.length ∧
      (if entry.kind.isCommon then Bytes.long <$> Encode.present entry.commonSize else pure []) =
        .ok part ∧
      ∀ window pos, Reads (if entry.kind.isCommon then some <$> word else pure none) window pos
        part size := by
  by_cases hc : entry.kind.isCommon
  · obtain ⟨size, hsize, hfits⟩ := h.common hc
    obtain ⟨n, rfl, hn⟩ := hfits.eq_ofNat
    rw [if_pos hc, if_pos hc, hsize]
    exact ⟨some n, _, rfl, by rw [Bytes.length_long], rfl, fun _ _ ↦ (reads_word hn).map some⟩
  · rw [if_neg hc, if_neg hc]
    exact ⟨none, [], h.plain hc, by decide, rfl, fun _ _ ↦ reads_pure none⟩

theorem encode_eq {entry : External} (h : Text.IsName entry.name) {part : List UInt8}
    (hpart : (if entry.kind.isCommon then Bytes.long <$> Encode.present entry.commonSize
      else pure []) = .ok part) :
    entry.encode = do
      if entry.kind.isDefinition then
        return Bytes.long (head entry.kind entry.name) ++ Text.padded entry.name ++ part ++
          Bytes.long (← Encode.present entry.value)
      let offsets ← Encode.present entry.offsets
      return Bytes.long (head entry.kind entry.name) ++ Text.padded entry.name ++ part ++
        Bytes.long offsets.length ++ (offsets.map Bytes.long).flatten := by
  rw [encode, Text.paddedName_eq h, ← encode_head h]
  by_cases hc : entry.kind.isCommon
  · rw [if_pos hc] at hpart
    simp only [if_pos hc, hpart]
    rfl
  · rw [if_neg hc] at hpart
    simp only [if_neg hc, hpart]
    rfl

/-- Behind its name and its size a definition has a value, and a reference has offsets. -/
theorem tail_reads {entry : External} (h : entry.InRange) {size : Option Nat} {part : List UInt8}
    (hsize : entry.commonSize = size.map Int.ofNat)
    (hpart : (if entry.kind.isCommon then Bytes.long <$> Encode.present entry.commonSize
      else pure []) = .ok part) :
    ∃ bytes, 4 ∣ bytes.length ∧
      entry.encode = .ok (Bytes.long (head entry.kind entry.name) ++
        (Text.padded entry.name ++ (part ++ bytes))) ∧
      ∀ window pos, Reads (decodeTail entry.name entry.kind size) window pos bytes (some entry) := by
  have hencode := encode_eq h.name hpart
  by_cases hd : entry.kind.isDefinition
  · obtain ⟨⟨value, hvalue, hfits⟩, hoffsets⟩ := h.definition hd
    obtain ⟨n, rfl, hn⟩ := hfits.eq_ofNat
    refine ⟨Bytes.long n, by rw [Bytes.length_long], ?_, fun window pos ↦ ?_⟩
    · rw [hencode, if_pos hd, hvalue]
      simp only [List.append_assoc]
      rfl
    · rw [decodeTail, if_pos hd]
      obtain ⟨_, _, _, _, _⟩ := entry
      subst hvalue hoffsets hsize
      exact (reads_word hn).bind_last ((reads_debug _).bind (reads_pure _))
  · obtain ⟨hvalue, offsets, hoffsets, hcount, hfits⟩ := h.reference hd
    have hlt : offsets.length < 2 ^ 32 := by exact_mod_cast hcount.2
    refine ⟨Bytes.long offsets.length ++ (offsets.map Bytes.long).flatten, ?_, ?_, fun window pos ↦ ?_⟩
    · have hlength : (offsets.map Bytes.long).flatten.length = 4 * offsets.length :=
        length_numbers 4 offsets
      rw [List.length_append, Bytes.length_long]
      omega
    · rw [hencode, if_neg hd, hoffsets]
      simp only [List.append_assoc]
      rfl
    · rw [decodeTail, if_neg hd]
      obtain ⟨_, _, _, _, _⟩ := entry
      subst hvalue hoffsets hsize
      exact (reads_word hlt).bind ((reads_numbers hfits).bind_last
        ((reads_debug _).bind (reads_pure _)))

theorem undoes_encode {entry : External} (h : entry.InRange)
    (hs : entry.kind = .symbol → entry.name ≠ "") :
    Undoes decode? 4 entry.encode (some entry) := by
  obtain ⟨size, part, hsize, hdvd, hpart, hread⟩ := size_reads h
  obtain ⟨bytes, hd, he, hr⟩ := tail_reads h hsize hpart
  have hl := Text.length_padded entry.name
  refine ⟨_, he, by simp [Bytes.long_ne_nil], ?_, fun window pos ↦
    reads_head h.name hs (hread window) (hr window)⟩
  simp only [List.length_append, Bytes.length_long]
  omega

theorem reads_end (window : Window) (pos : Nat) :
    Reads decode? window pos (Bytes.long 0) none :=
  (reads_word (n := 0) (by decide)).bind_last (reads_pure none)

end External

namespace Encode

theorem exactShort_eq {n : Int} (h : Fits 2 n) : exactShort n = .ok (Bytes.short n) :=
  if_pos h

theorem concat_shorts {as : List Int} (h : ∀ a ∈ as, Fits 2 a) :
    concat exactShort as = .ok (as.map Bytes.short).flatten := by
  have hparts : as.mapM exactShort = .ok (as.map Bytes.short) := by
    induction as with
    | nil => rfl
    | cons a as ih =>
      obtain ⟨ha, has⟩ := List.forall_mem_cons.mp h
      rw [List.mapM_cons, exactShort_eq ha, ih has]
      rfl
  rw [concat, hparts]
  rfl

end Encode

namespace IndexDefinition

theorem encode_reads {definition : IndexDefinition} (h : definition.InRange) :
    ∃ bytes, definition.encode = .ok bytes ∧ bytes.length = 6 ∧
      ∀ window pos, Reads decode window pos bytes definition := by
  obtain ⟨nameOffset, hname, hnlt⟩ := h.nameOffset.eq_ofNat
  obtain ⟨value, hvalue, hvlt⟩ := h.value.eq_ofNat
  obtain ⟨symbolType, htype, htlt⟩ := h.symbolType.eq_ofNat
  have hfits : ∀ a ∈ [definition.nameOffset, definition.value, definition.symbolType], Fits 2 a := by
    simp [h.nameOffset, h.value, h.symbolType]
  refine ⟨_, Encode.concat_shorts hfits, by simp [Bytes.length_short], fun window pos ↦ ?_⟩
  obtain ⟨_, _, _⟩ := definition
  subst hname hvalue htype
  exact (reads_short hnlt).bind ((reads_short hvlt).bind ((reads_short htlt).bind (reads_pure _)))

end IndexDefinition

namespace IndexHunk

theorem encode_reads {hunk : IndexHunk} (h : hunk.InRange) :
    ∃ bytes, hunk.encode = .ok bytes ∧ bytes.length = 2 * hunk.shortCount ∧
      ∀ window pos, Reads decode window pos bytes hunk := by
  obtain ⟨nameOffset, hname, hnlt⟩ := h.nameOffset.eq_ofNat
  obtain ⟨longs, hlongs, hllt⟩ := h.longs.eq_ofNat
  obtain ⟨memoryType, htype, htlt⟩ := h.memoryType.eq_ofNat
  have hrlt : hunk.refs.length < 2 ^ 16 := by exact_mod_cast h.ref_count.2
  have hdlt : hunk.definitions.length < 2 ^ 16 := by exact_mod_cast h.count.2
  obtain ⟨bytes, hb, hlength, hr⟩ := concat_times fun definition hm ↦
    IndexDefinition.encode_reads (h.definitions definition hm)
  have hhead : ∀ a ∈ [hunk.nameOffset, hunk.longs, hunk.memoryType, (hunk.refs.length : Int)],
      Fits 2 a := by
    simp [h.nameOffset, h.longs, h.memoryType, h.ref_count]
  have hrefs : (hunk.refs.map Bytes.short).flatten.length = 2 * hunk.refs.length :=
    length_numbers 2 hunk.refs
  refine ⟨_, by
    rw [encode, Encode.concat_shorts hhead, Encode.concat_shorts h.refs,
      Encode.exactShort_eq h.count, hb]
    rfl, ?_, fun window pos ↦ ?_⟩
  · rw [List.map_const', List.sum_replicate, smul_eq_mul] at hlength
    simp only [List.length_append, hrefs, hlength, Bytes.length_short, List.map_cons, List.map_nil,
      List.flatten_cons, List.flatten_nil, List.length_nil, shortCount]
    ring
  · have hreads := h.refs
    obtain ⟨_, _, _, refs, definitions⟩ := hunk
    subst hname hlongs htype
    simp only [List.append_assoc, List.map_cons, List.map_nil, List.flatten_cons, List.flatten_nil,
      List.nil_append]
    exact (reads_short hnlt).bind ((reads_short hllt).bind ((reads_short htlt).bind
      ((reads_short hrlt).bind ((reads_numbers hreads).bind ((reads_short hdlt).bind
        (hr window _).bind_pure)))))

end IndexHunk

namespace IndexUnit

theorem shortCount_eq (unit : IndexUnit) :
    2 * unit.shortCount = (unit.hunks.map fun hunk ↦ 2 * hunk.shortCount).sum + 6 := by
  rw [shortCount]
  induction unit.hunks with
  | nil => rfl
  | cons hunk hunks ih => rw [List.foldr_cons, Nat.mul_add, ih, List.map_cons, List.sum_cons]; ring

theorem encode_reads {unit : IndexUnit} (h : unit.InRange) :
    ∃ bytes, unit.encode = .ok bytes ∧ bytes.length = 2 * unit.shortCount ∧
      ∀ window pos, Reads decode window pos bytes unit := by
  obtain ⟨nameOffset, hname, hnlt⟩ := h.nameOffset.eq_ofNat
  obtain ⟨firstHunkOffset, hfirst, hflt⟩ := h.firstHunkOffset.eq_ofNat
  have hclt : unit.hunks.length < 2 ^ 16 := by exact_mod_cast h.count.2
  obtain ⟨bytes, hb, hlength, hr⟩ := concat_times fun hunk hm ↦ IndexHunk.encode_reads (h.hunks hunk hm)
  have hhead : ∀ a ∈ [unit.nameOffset, unit.firstHunkOffset, (unit.hunks.length : Int)], Fits 2 a := by
    simp [h.nameOffset, h.firstHunkOffset, h.count]
  refine ⟨_, by rw [encode, Encode.concat_shorts hhead, hb]; rfl, ?_, fun window pos ↦ ?_⟩
  · rw [shortCount_eq, ← hlength]
    simp [Bytes.length_short]
    ring
  · obtain ⟨_, _, hunks⟩ := unit
    subst hname hfirst
    simp only [List.append_assoc, List.map_cons, List.map_nil, List.flatten_cons, List.flatten_nil,
      List.nil_append]
    exact (reads_short hnlt).bind ((reads_short hflt).bind ((reads_short hclt).bind
      (hr window _).bind_pure))

end IndexUnit

namespace Index

/-- The step that reads the units while their words are left. -/
def decodeUnit? (left : Int) : Decoder (Option (IndexUnit × Int)) := do
  if left ≤ 1 then
    return none
  let unit ← IndexUnit.decode
  return some (unit, left - unit.shortCount)

theorem readsMany_units {units : List IndexUnit} {parts : List (List UInt8)}
    (hparts : List.Forall₂ (fun unit part ↦ part.length = 2 * unit.shortCount ∧
      ∀ window pos, Reads IndexUnit.decode window pos part unit) units parts)
    {extra : Int} (h0 : 0 ≤ extra) (h1 : extra ≤ 1) (window : Window) (pos : Nat) :
    ReadsMany decodeUnit? window
      (((units.map IndexUnit.shortCount).sum : Nat) + extra) pos parts.flatten units extra := by
  induction hparts generalizing pos with
  | nil =>
    rw [List.map_nil, List.sum_nil, Int.natCast_zero, Int.zero_add]
    refine .stop ?_
    rw [decodeUnit?, if_pos h1]
    exact reads_pure none
  | @cons unit part units parts hr _ ih =>
    have hcount : 3 ≤ unit.shortCount := by
      have h := IndexUnit.shortCount_eq unit
      omega
    have hleft : (((unit.shortCount + (units.map IndexUnit.shortCount).sum : Nat) : Int) + extra) -
        unit.shortCount = ((units.map IndexUnit.shortCount).sum : Nat) + extra := by
      omega
    rw [List.map_cons, List.sum_cons]
    refine .step (List.ne_nil_of_length_pos (by omega)) ?_ (ih _)
    rw [decodeUnit?, if_neg (by omega), ← hleft]
    exact (hr.2 window pos).bind_pure

theorem shortCount_eq (index : Index) :
    index.shortCount =
      1 + (index.strings.size + 1) / 2 + (index.units.map IndexUnit.shortCount).sum := by
  rw [shortCount]
  induction index.units with
  | nil => rfl
  | cons unit units ih => rw [List.foldr_cons, ih, List.map_cons, List.sum_cons]; omega

/-- A table whose content is no multiple of a long word ends in a zero word. -/
def fill (index : Index) : List UInt8 :=
  if index.shortCount % 2 = 1 then [0, 0] else []

/-- The short words that a table with these units counts. -/
def content (index : Index) (units : List UInt8) : List UInt8 :=
  Bytes.short index.strings.size ++ (index.strings.toList ++
    ((if index.strings.size % 2 = 1 then [0] else []) ++ units))

section

variable {index : Index} {parts : List (List UInt8)}
  (hparts : List.Forall₂ (fun unit part ↦ part.length = 2 * unit.shortCount ∧
    ∀ window pos, Reads IndexUnit.decode window pos part unit) index.units parts)
include hparts

theorem length_content : (index.content parts.flatten).length = 2 * index.shortCount := by
  have hcount := shortCount_eq index
  have hflat := length_flatten_of hparts fun _ _ hr ↦ hr.1
  have hdouble : (index.units.map fun unit ↦ 2 * unit.shortCount).sum =
      2 * (index.units.map IndexUnit.shortCount).sum := List.sum_map_mul_left ..
  have hpad : (if index.strings.size % 2 = 1 then [(0 : UInt8)] else []).length =
      index.strings.size % 2 := by
    split <;> simp <;> omega
  rw [content]
  simp only [List.length_append, Bytes.length_short, Array.length_toList]
  omega

theorem encode_eq (h : index.InRange) (hp : Encode.concat IndexUnit.encode index.units = .ok parts.flatten) :
    index.encode = .ok (Bytes.long ((index.shortCount + 1) / 2 : Nat) ++
      (index.content parts.flatten ++ index.fill)) := by
  have hlength := length_content hparts
  have hfill : Bytes.padLong (index.content parts.flatten) = index.content parts.flatten ++ index.fill := by
    rw [Bytes.padLong, hlength, fill]
    split <;> rename_i hodd
    · rw [show (4 - 2 * index.shortCount % 4) % 4 = 2 by omega]
      rfl
    · rw [show (4 - 2 * index.shortCount % 4) % 4 = 0 by omega]
      rfl
  have hwords : ((Bytes.padLong (index.content parts.flatten)).length : Int) / 4 =
      ((index.shortCount + 1) / 2 : Nat) := by
    rw [Bytes.length_padLong]
    omega
  calc index.encode = .ok (Encode.longBytes (index.content parts.flatten)) := by
        rw [encode, Encode.exactShort_eq h.strings, hp, content]
        simp only [← List.append_assoc]
        rfl
    _ = .ok (Bytes.long ((index.shortCount + 1) / 2 : Nat) ++
          (index.content parts.flatten ++ index.fill)) := by
        rw [Encode.longBytes, ← hfill, ← hwords]

/-- The units behind a string table, with the word that fills up the last long word. -/
theorem reads_units (window : Window) (pos : Nat) :
    Reads (decodeUnits (2 * ((index.shortCount + 1) / 2 : Nat) -
      (((index.strings.size : Int) + 1) / 2 + 1))) window pos (parts.flatten ++ index.fill)
      index.units := by
  have hcount := shortCount_eq index
  rw [fill]
  by_cases hodd : index.shortCount % 2 = 1
  · have hleft : 2 * ((index.shortCount + 1) / 2 : Nat) - (((index.strings.size : Int) + 1) / 2 + 1) =
        ((index.units.map IndexUnit.shortCount).sum : Nat) + 1 := by
      omega
    rw [hleft, if_pos hodd]
    refine (reads_manyWith (readsMany_units hparts (by decide) (by decide) window pos)).bind ?_
    exact (reads_number rfl).bind_pure
  · have hleft : 2 * ((index.shortCount + 1) / 2 : Nat) - (((index.strings.size : Int) + 1) / 2 + 1) =
        ((index.units.map IndexUnit.shortCount).sum : Nat) + 0 := by
      omega
    rw [hleft, if_neg hodd]
    refine (reads_manyWith (readsMany_units hparts (by decide) (by decide) window pos)).bind ?_
    exact reads_pure index.units

end

theorem undoes_encode {index : Index} (h : index.InRange) (hs : (index.shortCount + 1) / 2 < 2 ^ 32) :
    Undoes decode 4 index.encode index := by
  obtain ⟨parts, hp, hparts⟩ := concat_eq fun unit hm ↦ IndexUnit.encode_reads (h.units unit hm)
  have hsize : index.strings.size < 2 ^ 16 := by exact_mod_cast h.strings.2
  have hunits := reads_units hparts
  refine ⟨_, encode_eq hparts h hp, by simp [Bytes.long_ne_nil], ?_, fun window pos ↦ ?_⟩
  · rw [List.length_append, List.length_append, Bytes.length_long, length_content hparts, fill]
    split <;> simp only [List.length_cons, List.length_nil] <;> omega
  · rw [content]
    simp only [List.append_assoc]
    refine (reads_word hs).bind ((reads_short hsize).bind ((reads_take (by simp)).bind ?_))
    by_cases hpad : index.strings.size % 2 = 1
    · rw [if_pos hpad, if_pos hpad]
      have hzero : Reads (take 1) window (pos + 4 + 2 + index.strings.size) [0] [0] :=
        reads_take (by decide)
      exact hzero.bind (hunits window _).bind_pure
    · rw [if_neg hpad, if_neg hpad]
      exact (hunits window _).bind_pure

end Index

end Hunks
