import Mathlib
import Hunks.Proofs.Link

namespace Hunks

open Hunks.Action (run)

namespace Linker

variable {α : Type} {linker linker' : Linker}

/-- A loop over parts of an image, each of which enters events of its own. -/
theorem forEach_names {f : α → Link Unit} (events : α → List Event) {as : List α}
    (step : ∀ a ∈ as, ∀ linker linker', linker.names.Steady → run (f a) linker = (.ok (), linker') →
      linker'.names = (events a).foldl NameTable.bind linker.names)
    (h : linker.names.Steady) (hr : run (Action.forEach as f) linker = (.ok (), linker')) :
    linker'.names = (as.flatMap events).foldl NameTable.bind linker.names := by
  refine Action.forEach_invariant (fun done (linker' : Linker) ↦
    linker'.names = (done.flatMap events).foldl NameTable.bind linker.names) ?_ rfl hr
  intro done a rest middle after hsplit hnames hstep
  have hsteady : middle.names.Steady := by
    rw [hnames]
    exact h.foldl _
  rw [step a (by simp [hsplit]) middle after hsteady hstep, hnames, List.flatMap_append,
    List.foldl_append, List.flatMap_singleton]

theorem addReference_names (h : linker.names.Steady) {imageEnd address : Int} {id : Nat}
    {reference : Reference}
    (hr : run (addReference imageEnd address id reference) linker = (.ok (), linker')) :
    linker'.names = linker.names.bind (.reference reference.name) := by
  obtain ⟨target, hresolve, -⟩ := run_resolve h reference.name
  rw [addReference, Action.run_bind_ok hresolve] at hr
  have hsteady : (linker.bind (.reference reference.name)).names.Steady := h.bind _
  have hpatches := forEach_names (fun _ ↦ []) (fun offset _ linker linker' _ hpatch ↦ by
    obtain ⟨_, -, rfl⟩ := patch_eq_ok.mp hpatch
    rfl) hsteady hr
  rw [List.flatMap_eq_nil_iff.mpr fun _ _ ↦ rfl] at hpatches
  exact hpatches

theorem segment_names (h : linker.names.Steady) {imageEnd address : Int} {id : Nat} {segment : Segment}
    (hr : run (do
      Action.forEach segment.definitions (addDefinition address)
      Action.forEach segment.references (addReference imageEnd address id)) linker = (.ok (), linker')) :
    linker'.names = (segment.events address).foldl NameTable.bind linker.names := by
  obtain ⟨_, middle, hdefinitions, hreferences⟩ := Action.run_bind_eq_ok.mp hr
  obtain ⟨hnames, -⟩ := run_addDefinitions h _ hdefinitions
  have hsteady : middle.names.Steady := by
    rw [hnames]
    exact h.foldl _
  have hlast := forEach_names (fun reference : Reference ↦ [.reference reference.name])
    (fun _ _ _ _ h hr ↦ addReference_names h hr) hsteady hreferences
  rw [hlast, hnames, Segment.events, List.foldl_append, List.map_eq_flatMap (l := segment.references)]

/-- What a linker knows about names does not depend on its patches. -/
theorem link_names {image : Image} {addresses : List Int} {imageEnd : Int} (h : linker.names.Steady)
    (hr : run (link image addresses imageEnd) linker = (.ok (), linker')) :
    linker'.names = (image.events addresses).foldl NameTable.bind linker.names :=
  forEach_names (fun entry : Segment × Nat ↦ entry.1.events (addresses.getD entry.2 0))
    (fun _ _ _ _ h hr ↦ segment_names h hr) h hr

end Linker

end Hunks
