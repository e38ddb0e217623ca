import Mathlib
import Hunks.Proofs.Load.Slots

namespace Hunks

open Hunks.Action (run runs_bind Runs)

namespace Loading

variable {ρ : Type} {loading loading' : Loading ρ} {loader : Loader ρ} {image : Image}
  {linker : Linker} {result : LoadResult} {Q : Report → Prop}

/-- What a load finds last becomes part of an answer about the file. -/
theorem of_finish {addresses : List Int}
    (hr : run (finish loader image addresses linker) loading = (.ok result, loading')) :
    ∃ residents notes, result = answer image addresses linker residents notes := by
  obtain ⟨_, _, -, hr⟩ := Action.run_bind_eq_ok.mp hr
  obtain ⟨_, _, -, hr⟩ := Action.run_bind_eq_ok.mp hr
  obtain ⟨_, _, -, hr⟩ := Action.run_bind_eq_ok.mp hr
  rw [run_conclude] at hr
  obtain ⟨found, -, rfl⟩ := Action.run_map_eq_ok.mp hr
  exact ⟨found.1, found.2, rfl⟩

/-- The states that the load of a file goes through, and what it gives back, if all reports of the
load have a property. -/
structure Stages (Q : Report → Prop) (loader : Loader ρ) (file : File) (image : Image)
    (relocated : List Bytes) (linker : Linker)
    (start created linked written defined referred loading : Loading ρ) (result : LoadResult) :
    Prop where
  built : run (Image.ofFile file) () = (.ok image, ())
  relocation : run (image.relocate (image.layout loader.base 0)) () = (.ok relocated, ())
  creation : Runs Q (eachSegment image (image.layout loader.base 0) relocated createSegment) start ()
    created
  linkage : run (runLinker image (image.layout loader.base 0) relocated loader.base
    (imageEnd image loader.base (image.layout loader.base 0))) created = (.ok linker, linked)
  writing : run (eachSegment image (image.layout loader.base 0) linker.buffers.toList writeBack) linked =
    (.ok (), written)
  definition : Runs Q (materialize loader linker.defs) written () defined
  reference : Runs Q (materialize loader linker.refs) defined () referred
  finishing : run (finish loader image (image.layout loader.base 0) linker) referred =
    (.ok result, loading)

namespace Stages

variable {file : File} {relocated : List Bytes}
  {start created linked written defined referred : Loading ρ}

/-- The rest only adds to what there is. -/
theorem rest (h : Stages Q loader file image relocated linker start created linked written defined
      referred loading result) {P : Host → Prop} (hP : Host.Stable P) (hr : Has P referred) :
    Has P loading := by
  have hfinish : (finish loader image (image.layout loader.base 0) linker).InStep
      (Both (Host.Same P)) fun _ ↦ True :=
    finish_inStep hP.growing.grown image _ linker fun _ _ ↦ trivial
  exact (confined_of_inStep hfinish).preserves.of_run h.finishing hr

theorem answer (h : Stages Q loader file image relocated linker start created linked written defined
      referred loading result) :
    result.image = some image ∧ result.addresses = image.layout loader.base 0 ∧
      result.buffers = linker.buffers.toList := by
  obtain ⟨_, _, rfl⟩ := of_finish h.finishing
  exact ⟨rfl, rfl, rfl⟩

theorem stores (h : Stages Q loader file image relocated linker start created linked written defined
      referred loading result) :
    result.linkage = some ⟨linker.defs, linker.refs, linker.entryPoints.toList⟩ := by
  obtain ⟨_, _, rfl⟩ := of_finish h.finishing
  rfl

end Stages

theorem loadFile_stages {file : File}
    (hr : Runs Q (loadFile loader file) loading result loading') :
    ∃ image relocated linker created linked written defined referred,
      Stages Q loader file image relocated linker loading created linked written defined referred
        loading' result := by
  rw [loadFile_eq, runs_bind] at hr
  obtain ⟨_, _, ⟨hinfo, -⟩, hr⟩ := hr
  cases hinfo
  obtain ⟨⟨image, _⟩, _, ⟨himage, -⟩, hr⟩ := runs_bind.mp hr
  obtain ⟨hbuilt, rfl⟩ := Action.run_within_eq_ok.mp himage
  dsimp only at hr
  obtain ⟨⟨relocated, _⟩, _, ⟨hrelocate, -⟩, hr⟩ := runs_bind.mp hr
  obtain ⟨hrelocated, rfl⟩ := Action.run_within_eq_ok.mp hrelocate
  dsimp only at hr
  obtain ⟨_, created, hcreate, hr⟩ := runs_bind.mp hr
  obtain ⟨_, _, ⟨hinfo, -⟩, hr⟩ := runs_bind.mp hr
  cases hinfo
  obtain ⟨linker, linked, ⟨hlink, -⟩, hr⟩ := runs_bind.mp hr
  obtain ⟨_, written, ⟨hwrite, -⟩, hr⟩ := runs_bind.mp hr
  obtain ⟨_, defined, hdefine, hr⟩ := runs_bind.mp hr
  obtain ⟨_, referred, hrefer, hfinish, -⟩ := runs_bind.mp hr
  exact ⟨image, relocated, linker, created, linked, written, defined, referred,
    Action.run_mapError_eq_ok.mp hbuilt, Action.run_mapError_eq_ok.mp hrelocated, hcreate, hlink, hwrite,
    hdefine, hrefer, hfinish⟩

end Loading

end Hunks
