import Mathlib
import Hunks.Proofs.Relocation.Faults

namespace Hunks

/-- Steps that leave what they start from leave it all the way. -/
theorem eq_of_foldlM {α β ε : Type} {f : β → α → Except ε β} {as : List α} {b b' : β}
    (step : ∀ a ∈ as, ∀ b', f b a = .ok b' → b' = b) (h : as.foldlM f b = .ok b') : b' = b := by
  induction as with
  | nil =>
    cases h
    rfl
  | cons a as ih =>
    rw [List.foldlM_cons] at h
    cases hf : f b a with
    | error e =>
      rw [hf] at h
      cases h
    | ok middle =>
      rw [hf, step a List.mem_cons_self middle hf] at h
      exact ih (fun a' hm ↦ step a' (List.mem_cons_of_mem _ hm)) h

namespace Segment

variable {hunk : Hunk} {kind : SegmentKind} {stored : SegmentContent} {count id : Nat} {buffer : Bytes}

theorem patchValue_zero (count id : Nat) {reloc : Relocation} (hk : reloc.pcRelative = false) :
    patchValue (List.replicate count 0) id reloc = reloc.addend := by
  have hget : ∀ place, (List.replicate count (0 : Int)).getD place 0 = 0 := by
    intro place
    rw [List.getD_eq_getElem?_getD, List.getElem?_replicate]
    split <;> rfl
  simp only [patchValue, hget, hk, Bool.false_eq_true, if_false, zero_add]

/-- A site that has not been changed holds the same after it is patched for segments at zero: its signed
number is cut to the width that it was read with. -/
theorem applyReloc_zero (h : hunk.InRange) (hs : hunk.segment = some (kind, stored)) {site : Site}
    (ho : 0 ≤ site.offset) (hk : site.kind.pcRelative = false)
    (hr : (ofHunk kind stored hunk).applyReloc (List.replicate count 0) id hunk.content
      (site.reloc (ofHunk kind stored hunk).data) = .ok buffer) : buffer = hunk.content := by
  obtain ⟨hsize, hsame, hfield, -⟩ := applyReloc_eq_ok ho hr
  have hin : site.offset + site.width ≤ hunk.content.size := by
    rwa [Hunk.content_size h]
  have hbranch : site.kind ≠ .relReloc26 := by
    rintro he
    rw [he] at hk
    cases hk
  have hvalue : patchValue (List.replicate count 0) id (site.reloc (ofHunk kind stored hunk).data) =
      site.addend hunk.content := by
    rw [patchValue_zero count id hk, Site.reloc_addend h hs ho hin, if_neg hbranch]
  refine hsame.eq_of_field_eq ?_ ?_
  · simp only [Site.span]
    omega
  · have hlt : (hunk.content.field site.span : Int) < 2 ^ (8 * site.width) := by
      exact_mod_cast Bytes.field_lt hunk.content site.span
    have hback : Int.bmod (hunk.content.field site.span) (2 ^ (8 * site.width)) % 2 ^ (8 * site.width) =
        hunk.content.field site.span := by
      have hmod := Int.bmod_emod (x := hunk.content.field site.span) (m := 2 ^ (8 * site.width))
      push_cast at hmod
      rw [hmod, Int.emod_eq_of_lt (Int.natCast_nonneg _) hlt]
    have hkept := hfield hbranch
    rw [hvalue, Site.addend, hback] at hkept
    exact_mod_cast hkept

/-- Every step finds the content as it was stored and leaves it so. -/
theorem relocate_zero (h : hunk.InRange) (hs : hunk.segment = some (kind, stored))
    (hk : ∀ site ∈ hunk.sites, site.kind.pcRelative = false)
    (hr : (ofHunk kind stored hunk).relocate (List.replicate count 0) id = .ok buffer) :
    buffer = hunk.content := by
  have hfold := (relocate_eq_ok hr).2
  rw [ofHunk_relocs, ofHunk_content h hs] at hfold
  refine eq_of_foldlM (fun reloc hm after happ ↦ ?_) hfold
  obtain ⟨site, hsite, rfl⟩ := List.mem_map.mp hm
  exact applyReloc_zero h hs (Hunk.sites_nonneg h hsite).1 (hk site hsite) happ

end Segment

namespace Image

variable {data : Bytes} {hunks : List Hunk} {image : Image}

/-- How a hunk is stored that a segment comes from: as the bytes of its block, filled up with zeros, or
as nothing but zeros. -/
structure Stores (hunk : Hunk) (segment : Segment) : Prop where
  size : hunk.content.size = segment.size
  blank : segment.kind = .bss → hunk.content = Bytes.zeros segment.size
  filled : segment.kind ≠ .bss → ∃ stored bytes, hunk.segment = some (segment.kind, stored) ∧
    stored.data = some bytes ∧ bytes.size ≤ segment.size ∧
      hunk.content = bytes ++ Bytes.zeros (segment.size - bytes.size)

theorem stores_ofHunk {hunk : Hunk} {kind : SegmentKind} {stored : SegmentContent} (h : hunk.InRange)
    (hs : hunk.segment = some (kind, stored)) : Stores hunk (.ofHunk kind stored hunk) := by
  obtain ⟨⟨tag, hrange⟩, hle⟩ := h.segment kind stored hs
  refine ⟨Hunk.content_size h, fun hk ↦ ?_, fun hk ↦ ?_⟩
  · have hnone : hunk.stored = #[] := by simp [Hunk.stored, hs, hrange.bss hk]
    rw [Hunk.content, hnone, Array.empty_append, Array.size_empty, Nat.sub_zero]
    rfl
  · obtain ⟨bytes, hbytes, hsize⟩ := hrange.stored hk
    have hstored : hunk.stored = bytes := by simp [Hunk.stored, hs, hbytes]
    have hfits := Hunk.stored_size_le h
    rw [hstored] at hfits
    exact ⟨stored, bytes, hs, hbytes, hfits, by rw [Hunk.content, hstored]; rfl⟩

theorem IsRead.stores (hi : IsRead data hunks image) : List.Forall₂ Stores hunks image.segments := by
  obtain ⟨⟨hcount, hbuilt⟩, hrange⟩ := hi.builtOf
  refine List.forall₂_iff_get.mpr ⟨hcount.symm, fun id hid hid' ↦ ?_⟩
  obtain ⟨kind, stored, hs, hsegment⟩ := hbuilt id hunks[id] (List.getElem?_eq_getElem hid)
  have hget : image.segments[id] = .ofHunk kind stored hunks[id] :=
    Option.some.inj ((List.getElem?_eq_getElem hid').symm.trans hsegment)
  rw [List.get_eq_getElem, List.get_eq_getElem, hget]
  exact stores_ofHunk (hrange _ (List.getElem_mem hid)) hs

/-- An image of which all addresses are zero reads as it is stored, wherever its relocations lie, if all
of them are absolute. -/
theorem relocate_replicate_zero (hi : IsRead data hunks image)
    (hk : ∀ segment ∈ image.segments, ∀ reloc ∈ segment.relocs, reloc.kind.pcRelative = false)
    (hr : ∀ segment ∈ image.segments, segment.Relocatable image.segments.length) :
    (image.relocate (List.replicate image.segments.length 0) ()).result = .ok (hunks.map Hunk.content) ∧
      List.Forall₂ Stores hunks image.segments := by
  refine ⟨?_, hi.stores⟩
  obtain ⟨⟨hcount, hbuilt⟩, hrange⟩ := hi.builtOf
  obtain ⟨buffers, hbuffers⟩ := exists_relocate hi List.length_replicate hr
  obtain ⟨-, hlength, hsegments⟩ := relocate_segments (Action.result_eq hbuffers)
  rw [hbuffers]
  refine congrArg Except.ok (List.ext_getElem? fun id ↦ ?_)
  rw [List.getElem?_map]
  cases hget : hunks[id]? with
  | none =>
    have hlt := List.getElem?_eq_none_iff.mp hget
    exact List.getElem?_eq_none (by omega)
  | some hunk =>
    obtain ⟨kind, stored, hs, hsegment⟩ := hbuilt id hunk hget
    obtain ⟨buffer, hb, hrelocated⟩ := hsegments id _ hsegment
    have habsolute : ∀ site ∈ hunk.sites, site.kind.pcRelative = false := by
      intro site hm
      refine hk _ (List.mem_of_getElem? hsegment) (site.reloc (Segment.ofHunk kind stored hunk).data) ?_
      rw [Segment.ofHunk_relocs]
      exact List.mem_map_of_mem hm
    rw [hb, Segment.relocate_zero (hrange hunk (List.mem_of_getElem? hget)) hs habsolute hrelocated]
    rfl

/-- A program whose code is patched twice at one place, in the middle of a wider site. -/
def overlaid : Bytes :=
  ([0x3f3, 0, 2, 0, 1, 2, 1, 0x3e9, 2, 0x80ff8001, 0xfe030405, 0x3ec, 1, 0, 1, 0, 0x3ed, 2, 1, 2,
    2, 0, 0x3f2, 0x3eb, 1, 0x3f2].flatMap (Bytes.ofNat 4)).toArray

def overlaidCode : Hunk :=
  { Hunk.empty with
    segment := some (.code, ⟨2, 0, some 36, some #[0x80, 0xff, 0x80, 1, 0xfe, 3, 4, 5]⟩)
    relocs := [(.reloc32, [⟨0, [1]⟩]), (.reloc16, [⟨1, [2, 2]⟩])]
    sizeLongs := 2 }

def overlaidVariable : Hunk :=
  { Hunk.empty with
    segment := some (.bss, ⟨1, 0, none, none⟩), sizeLongs := 1 }

def overlaidImage : Image where
  kind := .program
  segments :=
    [.ofHunk .code ⟨2, 0, some 36, some #[0x80, 0xff, 0x80, 1, 0xfe, 3, 4, 5]⟩ overlaidCode,
      .ofHunk .bss ⟨1, 0, none, none⟩ overlaidVariable]

theorem relocate_replicate_zero_overlaid : IsRead overlaid [overlaidCode, overlaidVariable] overlaidImage ∧
    (overlaidImage.relocate [0, 0] ()).result =
      .ok [#[0x80, 0xff, 0x80, 1, 0xfe, 3, 4, 5], #[0, 0, 0, 0]] := by
  have hi : IsRead overlaid [overlaidCode, overlaidVariable] overlaidImage := ⟨_, rfl, rfl, rfl⟩
  obtain ⟨hzero, -⟩ := relocate_replicate_zero hi (by decide +kernel) (by
    unfold Segment.Relocatable Relocation.Known Relocation.Inside
    decide +kernel)
  exact ⟨hi, hzero⟩

end Image

end Hunks
