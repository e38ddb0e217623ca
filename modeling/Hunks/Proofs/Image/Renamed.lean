import Mathlib
import Hunks.Link
import Hunks.Proofs.Image.Varied

namespace Hunks

open Hunks.Action (Parallel)

variable {known : String → Prop}

theorem leeway_alias (known : String → Prop) : Leeway (Alias known) Eq where
  name _ := Or.inl rfl
  empty _ _ h := h.isEmpty_iff
  kind _ := rfl
  width _ _ h := congrArg RelocKind.width h
  relative _ _ h := congrArg RelocKind.pcRelative h
  branch _ _ h := by rw [h]

theorem Block.Renamed.varied {block block' : Block} (h : block.Renamed known block') :
    block.Varied (Alias known) Eq block' := by
  cases h with
  | library _ _ => exact .library _ _ _ _
  | plain _ hbody =>
    refine .plain _ _ ?_
    cases hbody with
    | same => exact .same _
    | name hname => exact .name hname
    | segment kind content dataOffset => exact .segment kind content dataOffset

theorem File.Renamed.varied {file file' : File} (h : file.Renamed known file') :
    file.Varied (Alias known) Eq file' :=
  ⟨h.1, h.2.imp fun _ _ hb ↦ hb.varied⟩

namespace Segment

/-- Segments that are alike but for the string of the name and the place that they were read from. -/
def Renamed (known : String → Prop) (segment segment' : Segment) : Prop :=
  ∃ name dataOffset, segment' = { segment with name, dataOffset } ∧ Alias known segment.name name

theorem Varied.renamed {segment segment' : Segment} (h : segment.Varied (Alias known) Eq segment') :
    segment.Renamed known segment' := by
  obtain ⟨name, dataOffset, relocs, rfl, hname, hrelocs⟩ := h
  have hsame : List.Forall₂ Eq segment.relocs relocs := hrelocs.imp fun reloc reloc' hr ↦ by
    rw [hr.2, ← hr.1]
  rw [List.forall₂_eq_eq_eq] at hsame
  subst hsame
  exact ⟨name, dataOffset, rfl, hname⟩

end Segment

namespace Image

/-- Images of such segments. -/
def Renamed (known : String → Prop) (image image' : Image) : Prop :=
  image.kind = image'.kind ∧ List.Forall₂ (Segment.Renamed known) image.segments image'.segments

theorem Renamed.refl (image : Image) : image.Renamed known image :=
  ⟨rfl, List.forall₂_same.mpr fun _ _ ↦ ⟨_, _, rfl, Or.inl rfl⟩⟩

theorem ofFile_parallel {file file' : File} (h : file.Renamed known file') :
    Parallel Eq Eq ParseError.Alike (Renamed known) (ofFile file) (ofFile file') :=
  (ofFile_varied (leeway_alias known) h.varied).mono (fun _ _ he ↦ he)
    fun _ _ hv ↦ ⟨hv.1, hv.2.imp fun _ _ hs ↦ hs.renamed⟩

namespace Renamed

variable {image image' : Image} (h : image.Renamed known image')
include h

theorem sizes_eq : image'.sizes = image.sizes := by
  have hsizes : List.Forall₂ Eq image.sizes image'.sizes := by
    refine List.rel_map ?_ h.2
    rintro segment _ ⟨name, dataOffset, rfl, -⟩
    rfl
  rw [List.forall₂_eq_eq_eq] at hsizes
  exact hsizes.symm

theorem layout_eq (base padding : Int) : image'.layout base padding = image.layout base padding := by
  rw [layout, layout, h.sizes_eq]

theorem isProgram_eq : image'.isProgram = image.isProgram := by
  rw [isProgram, isProgram, h.1]

/-- No name is read where the relocations of a segment are applied. -/
theorem relocate_eq (addresses : List Int) : image'.relocate addresses = image.relocate addresses := by
  rw [relocate, relocate, h.2.length_eq, Action.foldl_congr h.2]
  rintro done segment _ ⟨name, dataOffset, rfl, -⟩
  rfl

theorem link_eq (addresses : List Int) (imageEnd : Int) :
    Linker.link image' addresses imageEnd = Linker.link image addresses imageEnd := by
  refine (Action.forEach_congr (zipIdx_forall₂ h.2 0) ?_).symm
  rintro ⟨segment, id⟩ ⟨_, _⟩ ⟨⟨name, dataOffset, rfl, -⟩, rfl⟩
  rfl

end Renamed

end Image

end Hunks
