import Mathlib
import Hunks.Proofs.Relocation

namespace Hunks

open Hunks.Action (run)

namespace Image

variable {data : Bytes} {hunks : List Hunk} {image : Image} {base padding : Int} {buffers : List Bytes}
  {blob : Bytes}

/-- A blob that holds the buffers of an image which is laid out from a base on, each one at the distance
of its address from the base, with nothing but zeros between them. -/
structure Joined (image : Image) (base padding : Int) (buffers : List Bytes) (blob : Bytes) : Prop where
  addresses : (image.layout base padding).length = image.segments.length
  count : buffers.length = image.segments.length
  size : (blob.size : Int) = image.totalSize padding
  first : (image.layout base padding)[0]? = some base
  next : ∀ (id : Nat) (segment : Segment) (address address' : Int),
    image.segments[id]? = some segment → (image.layout base padding)[id]? = some address →
    (image.layout base padding)[id + 1]? = some address' → address' = address + segment.size + padding
  apart : ∀ (i j : Nat) (segment : Segment) (address address' : Int), i < j →
    image.segments[i]? = some segment → (image.layout base padding)[i]? = some address →
    (image.layout base padding)[j]? = some address' → address + segment.size + padding ≤ address'
  holds : ∀ (id : Nat) (segment : Segment) (address : Int),
    image.segments[id]? = some segment → (image.layout base padding)[id]? = some address →
    base ≤ address ∧ address + segment.size ≤ base + blob.size ∧ ∃ buffer,
      buffers[id]? = some buffer ∧ buffer.size = segment.size ∧
        blob.extract (address - base).toNat ((address - base).toNat + segment.size) = buffer
  zero : ∀ place < blob.size, (∀ (id : Nat) (segment : Segment) (address : Int),
    image.segments[id]? = some segment → (image.layout base padding)[id]? = some address →
    ¬ (address ≤ base + place ∧ base + place < address + segment.size)) → blob[place]? = some 0

/-- Buffers of the sizes of the segments, joined with padding that may be joined. -/
theorem Filled.joined (hf : image.Filled buffers) (hne : image.segments ≠ []) (hp : 0 ≤ padding)
    (h : join? padding buffers = some blob) : image.Joined base padding buffers blob := by
  have hsizes := hf.map_size
  obtain ⟨-, hblob⟩ := join?_eq_some h
  have hsize : (blob.size : Int) = image.totalSize padding := by
    rw [← Array.length_toList, hblob, length_flatMap_padded, hsizes, totalSize_eq, hf.length, sizes,
      List.length_map, Int.natCast_add, Int.natCast_mul, Int.toNat_of_nonneg hp]
  constructor
  case addresses => exact length_layout ..
  case count => exact hf.length
  case size => exact hsize
  case first =>
    obtain ⟨segment, rest, hsegments⟩ := List.exists_cons_of_ne_nil hne
    rw [layout, sizes, hsegments]
    rfl
  case next => exact fun id segment address address' ↦ layout_succ
  case apart => exact fun i j segment address address' ↦ layout_le hp
  case holds =>
    intro id segment address hs ha
    have hlt : id < buffers.length := hf.length ▸ (List.getElem?_eq_some_iff.mp hs).1
    have hb := List.getElem?_eq_getElem hlt
    have hlength := hf.size id segment _ hs hb
    obtain ⟨hle, hend⟩ := layout_le_totalSize hp hs ha
    refine ⟨hle, by omega, _, hb, hlength, ?_⟩
    rw [← hlength]
    exact extract_join? hsizes hb ha h
  case zero =>
    intro place hlt hgap
    rw [← Array.length_toList, hblob] at hlt
    rw [← Array.getElem?_toList, hblob]
    refine getElem?_flatMap_padded base hp hlt fun id buffer address hb ha hin ↦ ?_
    rw [hsizes] at ha
    have hid : id < image.segments.length := hf.length ▸ (List.getElem?_eq_some_iff.mp hb).1
    have hs := List.getElem?_eq_getElem hid
    exact hgap id _ address hs ha (hf.size id _ buffer hs hb ▸ hin)

/-- The segments of an image that lie one after the other are relocated into one blob that holds each
of them at its address. -/
theorem relocateAsOne_joined (hi : IsRead data hunks image) (hne : image.segments ≠ [])
    (hp : 0 ≤ padding)
    (h : (image.relocate (image.layout base padding) ()).result = .ok buffers) :
    ∃ blob, (image.relocateAsOne base padding ()).result = .ok (some blob) ∧
      image.Joined base padding buffers blob := by
  obtain ⟨blob, hblob⟩ : ∃ blob, join? padding buffers = some blob := ⟨_, if_neg (by omega)⟩
  refine ⟨blob, ?_, (hi.filled h).joined hne hp hblob⟩
  have hrun : run (image.relocateAsOne base padding) () = (.ok (some blob), ()) := by
    rw [relocateAsOne, Action.run_bind, Action.result_eq h, ← hblob]
    rfl
  exact congrArg Prod.fst hrun

/-- A program whose code holds the address of the variable behind it, with an empty hunk between them. -/
def spread : Bytes :=
  ([0x3f3, 0, 3, 0, 2, 1, 0, 1, 0x3e9, 1, 2, 0x3ec, 1, 2, 0, 0, 0x3f2, 0x3ea, 0, 0x3f2, 0x3eb, 1,
    0x3f2].flatMap (Bytes.ofNat 4)).toArray

def spreadHunks : List Hunk :=
  [{ Hunk.empty with
      segment := some (.code, ⟨1, 0, some 40, some #[0, 0, 0, 2]⟩)
      relocs := [(.reloc32, [⟨2, [0]⟩])]
      sizeLongs := 1 },
    { Hunk.empty with segment := some (.data, ⟨0, 0, some 76, some #[]⟩), sizeLongs := 0 },
    { Hunk.empty with segment := some (.bss, ⟨1, 0, none, none⟩), sizeLongs := 1 }]

def spreadImage : Image where
  kind := .program
  segments := spreadHunks.filterMap fun hunk ↦ hunk.segment.map fun (kind, stored) ↦ .ofHunk kind stored hunk

theorem relocateAsOne_joined_spread : ∃ blob, IsRead spread spreadHunks spreadImage ∧
    (spreadImage.relocateAsOne 0x1000 2 ()).result = .ok (some blob) ∧
    spreadImage.Joined 0x1000 2 [#[0, 0, 0x10, 0x0a], #[], #[0, 0, 0, 0]] blob ∧
    blob = #[0, 0, 0x10, 0x0a, 0, 0, 0, 0, 0, 0, 0, 0, 0, 0] := by
  have hi : IsRead spread spreadHunks spreadImage := ⟨_, rfl, rfl, rfl⟩
  have hr : (spreadImage.relocate (spreadImage.layout 0x1000 2) ()).result =
      .ok [#[0, 0, 0x10, 0x0a], #[], #[0, 0, 0, 0]] := by cbv
  obtain ⟨blob, hblob, hjoined⟩ := relocateAsOne_joined hi (by decide) (by decide) hr
  have hvalue : (spreadImage.relocateAsOne 0x1000 2 ()).result =
      .ok (some #[0, 0, 0x10, 0x0a, 0, 0, 0, 0, 0, 0, 0, 0, 0, 0]) := by cbv
  exact ⟨blob, hi, hblob, hjoined, by simpa using hblob.symm.trans hvalue⟩

end Image

end Hunks
