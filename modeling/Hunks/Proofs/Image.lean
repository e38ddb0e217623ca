import Mathlib
import Hunks.Image
import Hunks.Proofs.Hunk

namespace Hunks

open Hunks.Action (run)

namespace Hunk

def stored (hunk : Hunk) : Bytes :=
  (hunk.segment.bind fun segment ↦ segment.2.data).getD #[]

/-- The stored bytes of a hunk, filled up with zeros to its size. -/
def content (hunk : Hunk) : Bytes :=
  hunk.stored ++ Bytes.zeros ((hunk.sizeLongs * 4).toNat - hunk.stored.size)

theorem stored_size_le {hunk : Hunk} (h : hunk.InRange) :
    hunk.stored.size ≤ (hunk.sizeLongs * 4).toNat := by
  cases hs : hunk.segment with
  | none => simp [stored, hs]
  | some segment =>
    obtain ⟨⟨tag, hr⟩, hl⟩ := h.segment segment.1 segment.2 hs
    by_cases hk : segment.1 = .bss
    · simp [stored, hs, hr.bss hk]
    · obtain ⟨data, hdata, hsize⟩ := hr.stored hk
      simp only [stored, hs, Option.bind_some, hdata, Option.getD_some]
      omega

theorem content_size {hunk : Hunk} (h : hunk.InRange) :
    hunk.content.size = (hunk.sizeLongs * 4).toNat := by
  have hd := stored_size_le h
  rw [content, Array.size_append, Bytes.size_zeros]
  omega

end Hunk

namespace Segment

variable {kind : SegmentKind} {stored : SegmentContent} {hunk : Hunk}

theorem ofHunk_data (hs : hunk.segment = some (kind, stored)) (hk : kind ≠ .bss) :
    (ofHunk kind stored hunk).data = some hunk.content := by
  simp [ofHunk, storedData, hk, Hunk.content, Hunk.stored, hs]

theorem ofHunk_content (h : hunk.InRange) (hs : hunk.segment = some (kind, stored)) :
    (ofHunk kind stored hunk).content = hunk.content := by
  by_cases hk : kind = .bss
  · obtain ⟨⟨tag, hr⟩, _⟩ := h.segment kind stored hs
    simp [content, ofHunk, storedData, hk, Hunk.content, Hunk.stored, hs, hr.bss hk]
  · have hz : (ofHunk kind stored hunk).size - hunk.content.size = 0 := by
      rw [Hunk.content_size h]
      exact Nat.sub_self _
    rw [content, ofHunk_data hs hk, Option.getD_some, hz]
    simp [Bytes.zeros]

end Segment

namespace Image

/-- The segment at a number comes from the hunk at that number. -/
def BuiltOf (image : Image) (hunks : List Hunk) : Prop :=
  image.segments.length = hunks.length ∧
    ∀ (id : Nat) (hunk : Hunk), hunks[id]? = some hunk → ∃ kind stored,
      hunk.segment = some (kind, stored) ∧
        image.segments[id]? = some (Segment.ofHunk kind stored hunk)

theorem ofFile_builtOf {file : File} {image : Image} (h : run (ofFile file) () = (.ok image, ())) :
    ∃ hunks, run file.hunks () = (.ok hunks, ()) ∧ image.BuiltOf hunks ∧ image.kind = file.kind := by
  obtain ⟨hunks, _, hh, h⟩ := Action.run_bind_eq_ok.mp h
  obtain ⟨segments, _, hf, h⟩ := Action.run_bind_eq_ok.mp h
  cases h
  obtain ⟨hsize, hsegments⟩ := Action.foldl_push (fun _ hunk segment ↦ ∃ kind stored,
      hunk.segment = some (kind, stored) ∧ segment = Segment.ofHunk kind stored hunk)
    (by
      intro found hunk _ found' _ hr
      split at hr
      · cases hr
      · cases hr
        exact ⟨_, rfl, _, _, by assumption, rfl⟩) hf
  refine ⟨hunks, hh, ⟨by simpa using hsize, fun id hunk hi ↦ ?_⟩, rfl⟩
  obtain ⟨segment, hg, kind, stored, hs, rfl⟩ := hsegments id hunk hi
  exact ⟨kind, stored, hs, by simpa using hg⟩

/-- The image that the bytes of a file give, and the hunks it is built of. -/
def IsRead (data : Bytes) (hunks : List Hunk) (image : Image) : Prop :=
  ∃ file, (File.read data 0 none none).result = .ok file ∧ (file.hunks ()).result = .ok hunks ∧
    (ofFile file ()).result = .ok image

theorem exists_isRead {data : Bytes} {file : File} {image : Image}
    (hread : (File.read data 0 none none).result = .ok file)
    (hbuilt : run (ofFile file) () = (.ok image, ())) : ∃ hunks, image.IsRead data hunks := by
  obtain ⟨hunks, hhunks, -, -⟩ := ofFile_builtOf hbuilt
  exact ⟨hunks, file, hread, congrArg Prod.fst hhunks, congrArg Prod.fst hbuilt⟩

theorem decode_inRange {data : Bytes} {executable : Option Bool} {file : File}
    (h : (File.read data 0 none executable).result = .ok file) :
    ∃ executable, Block.AllInRange executable file.blocks := by
  obtain ⟨kind, _, _, h⟩ := Decoder.bind_eq_ok.mp (Action.result_eq h)
  obtain ⟨blocks, _, hb, h⟩ := Decoder.bind_eq_ok.mp h
  cases h
  exact ⟨_, Block.decodeAll_yields _ _ _ _ hb⟩

theorem IsRead.builtOf {data : Bytes} {hunks : List Hunk} {image : Image}
    (h : IsRead data hunks image) : image.BuiltOf hunks ∧ ∀ hunk ∈ hunks, hunk.InRange := by
  obtain ⟨file, hd, hh, hi⟩ := h
  obtain ⟨executable, hb⟩ := decode_inRange hd
  obtain ⟨hunks', hh', hbuilt, _⟩ := ofFile_builtOf (Action.result_eq hi)
  rw [Action.result_eq hh] at hh'
  cases hh'
  refine ⟨hbuilt, fun hunk hm ↦ ?_⟩
  exact (File.hunks_inRange ((Block.allInRange_iff _).mp hb) (Action.result_eq hh) hunk hm).1

namespace IsRead

variable {data : Bytes} {hunks : List Hunk} {image : Image} {segment : Segment}

theorem of_mem (h : IsRead data hunks image) (hm : segment ∈ image.segments) :
    ∃ hunk kind stored, hunk.InRange ∧ hunk.segment = some (kind, stored) ∧
      segment = Segment.ofHunk kind stored hunk := by
  obtain ⟨⟨hlength, hbuilt⟩, hrange⟩ := h.builtOf
  obtain ⟨id, hid, rfl⟩ := List.getElem_of_mem hm
  have hhunk : hunks[id]? = some hunks[id] := List.getElem?_eq_getElem (by omega)
  obtain ⟨kind, stored, hs, hsegment⟩ := hbuilt id _ hhunk
  rw [List.getElem?_eq_getElem hid] at hsegment
  exact ⟨_, kind, stored, hrange _ (List.mem_of_getElem? hhunk), hs, Option.some.inj hsegment⟩

/-- The size of a segment is one in long words. -/
theorem long_size (h : IsRead data hunks image) (hm : segment ∈ image.segments) :
    ∃ n : Nat, segment.size = n * 4 := by
  obtain ⟨hunk, kind, stored, -, -, rfl⟩ := h.of_mem hm
  refine ⟨hunk.sizeLongs.toNat, ?_⟩
  simp only [Segment.ofHunk]
  omega

theorem offset_nonneg (h : IsRead data hunks image) (hm : segment ∈ image.segments)
    {reference : Reference} (hr : reference ∈ segment.references) {offset : Int}
    (ho : offset ∈ reference.offsets) : 0 ≤ offset := by
  obtain ⟨hunk, kind, stored, hrange, -, rfl⟩ := h.of_mem hm
  obtain ⟨entry, he, hreference⟩ := List.mem_filterMap.mp hr
  have hentry : entry.InRange := by
    cases hx : hunk.externals with
    | none => simp [hx] at he
    | some entries =>
      rw [hx, Option.getD_some] at he
      exact hrange.externals entries hx entry he
  obtain ⟨_, _, rfl⟩ := Option.map_eq_some_iff.mp hreference
  by_cases hd : entry.kind.isDefinition
  · simp [(hentry.definition hd).2] at ho
  · obtain ⟨-, offsets, hoffsets, -, hfits⟩ := hentry.reference hd
    rw [hoffsets, Option.getD_some] at ho
    exact (hfits offset ho).1

end IsRead

end Image

end Hunks
