import Mathlib
import Hunks.Proofs.Link.Errors
import Hunks.Proofs.Link.Events

namespace Hunks

open Hunks.Action (run)

namespace Linker

variable {α : Type} {linker linker' : Linker} {events : List Event} {e : LinkError}
  {before after : NameTable}

/-- How going through events stops at a reference that has no room in its segment: the events up to
it have been entered. -/
def Stopped (events : List Event) (e : LinkError) (before after : NameTable) : Prop :=
  ∃ pre name post id offset, events = pre ++ .reference name :: post ∧
    e = .relocation (.reference name id offset) ∧
    after = (pre ++ [.reference name]).foldl NameTable.bind before

theorem Stopped.inside {front : List Event} (h : Stopped events e (front.foldl NameTable.bind before) after)
    (back : List Event) :
    Stopped (front ++ events ++ back) e before after := by
  obtain ⟨pre, name, post, id, offset, rfl, rfl, rfl⟩ := h
  refine ⟨front ++ pre, name, post ++ back, id, offset, by simp, rfl, ?_⟩
  rw [List.append_assoc]
  exact List.foldl_append.symm

/-- A loop over parts of an image stops where one of its rounds does. -/
theorem forEach_stopped {f : α → Link Unit} (events : α → List Event) {as : List α}
    (step : ∀ a ∈ as, ∀ linker linker', linker.names.Steady → run (f a) linker = (.ok (), linker') →
      linker'.names = (events a).foldl NameTable.bind linker.names)
    (stop : ∀ a ∈ as, ∀ linker linker', linker.names.Steady → run (f a) linker = (.error e, linker') →
      Stopped (events a) e linker.names linker'.names)
    (h : linker.names.Steady) (hr : run (Action.forEach as f) linker = (.error e, linker')) :
    Stopped (as.flatMap events) e linker.names linker'.names := by
  obtain ⟨done, a, rest, middle, rfl, hdone, hlast⟩ := Action.of_run_forEach_eq_error hr
  have hnames := forEach_names events (fun a hm ↦ step a (List.mem_append_left _ hm)) h hdone
  have hsteady : middle.names.Steady := by
    rw [hnames]
    exact h.foldl _
  have hstop := stop a (by simp) middle linker' hsteady hlast
  rw [hnames] at hstop
  rw [List.flatMap_append, List.flatMap_cons, ← List.append_assoc]
  exact hstop.inside _

theorem exists_addDefinition (h : linker.names.Steady) (address : Int) (definition : Definition) :
    ∃ linker', run (addDefinition address definition) linker = (.ok (), linker') := by
  rw [addDefinition]
  split
  · obtain ⟨slot, hs, -⟩ := run_defineAbsolute h definition.name definition.offset
    rw [Action.run_bind_ok hs]
    exact ⟨_, rfl⟩
  · obtain ⟨known, hk, -⟩ := run_define h definition.name (address + definition.offset)
    rw [Action.run_bind_ok hk, Action.run_bind, Action.run_get]
    dsimp only
    split
    · exact ⟨_, rfl⟩
    · exact ⟨_, rfl⟩

theorem addReference_stopped (h : linker.names.Steady) {imageEnd address : Int} {id : Nat}
    {reference : Reference} (ho : ∀ offset ∈ reference.offsets, 0 ≤ offset)
    (hr : run (addReference imageEnd address id reference) linker = (.error e, linker')) :
    Stopped [.reference reference.name] e linker.names linker'.names := by
  obtain ⟨target, hresolve, -⟩ := run_resolve h reference.name
  rw [addReference, Action.run_bind_ok hresolve] at hr
  obtain ⟨done, offset, rest, middle, hsplit, hdone, hlast⟩ := Action.of_run_forEach_eq_error hr
  have hsteady : (linker.bind (.reference reference.name)).names.Steady := h.bind _
  have hnames := forEach_names (fun _ ↦ []) (fun offset _ linker linker' _ hpatch ↦ by
    obtain ⟨_, -, rfl⟩ := patch_eq_ok.mp hpatch
    rfl) hsteady hdone
  rw [List.flatMap_eq_nil_iff.mpr fun _ _ ↦ rfl] at hnames
  rw [run_patch_eq (ho offset (by simp [hsplit]))] at hlast
  split at hlast
  · cases hlast
    exact ⟨[], reference.name, [], id, offset, rfl, rfl, hnames⟩
  · cases hlast

theorem segment_stopped (h : linker.names.Steady) {imageEnd address : Int} {id : Nat} {segment : Segment}
    (ho : ∀ reference ∈ segment.references, ∀ offset ∈ reference.offsets, 0 ≤ offset)
    (hr : run (do
      Action.forEach segment.definitions (addDefinition address)
      Action.forEach segment.references (addReference imageEnd address id)) linker = (.error e, linker')) :
    Stopped (segment.events address) e linker.names linker'.names := by
  rcases Action.run_bind_eq_error.mp hr with hr | ⟨_, middle, hdefinitions, hr⟩
  · obtain ⟨done, definition, rest, middle, -, hdone, hlast⟩ := Action.of_run_forEach_eq_error hr
    have hsteady : middle.names.Steady := by
      rw [(run_addDefinitions h address hdone).1]
      exact h.foldl _
    obtain ⟨_, hrun⟩ := exists_addDefinition hsteady address definition
    rw [hrun] at hlast
    cases hlast
  · obtain ⟨hnames, -⟩ := run_addDefinitions h _ hdefinitions
    have hsteady : middle.names.Steady := by
      rw [hnames]
      exact h.foldl _
    have hstop := forEach_stopped (fun reference : Reference ↦ [.reference reference.name])
      (fun _ _ _ _ h hr ↦ addReference_names h hr)
      (fun reference hm _ _ h hr ↦ addReference_stopped h (ho reference hm) hr) hsteady hr
    rw [hnames] at hstop
    have hinside := hstop.inside []
    rwa [List.append_nil, ← List.map_eq_flatMap] at hinside

/-- A link fails at a reference only, and leaves the labels of the names up to there. -/
theorem link_stopped {image : Image} {addresses : List Int} {imageEnd : Int} (h : linker.names.Steady)
    (ho : ∀ segment ∈ image.segments, ∀ reference ∈ segment.references,
      ∀ offset ∈ reference.offsets, 0 ≤ offset)
    (hr : run (link image addresses imageEnd) linker = (.error e, linker')) :
    Stopped (image.events addresses) e linker.names linker'.names :=
  forEach_stopped (fun entry : Segment × Nat ↦ entry.1.events (addresses.getD entry.2 0))
    (fun _ _ _ _ h hr ↦ segment_names h hr)
    (fun _ hm _ _ h hr ↦ segment_stopped h (ho _ (List.fst_mem_of_mem_zipIdx hm)) hr) h hr

end Linker

end Hunks
