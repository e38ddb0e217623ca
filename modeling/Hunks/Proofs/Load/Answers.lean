import Mathlib
import Hunks.Proofs.Block.Tiles
import Hunks.Proofs.Load.InStep
import Hunks.Proofs.Resident.Rounds

namespace Hunks

open Hunks.Action (run Confined)
open Resident (Scanner Sources)

namespace Loading

variable {ρ : Type}

/-- A load on a host that does not fail goes wrong because of its input, or of a resolver. -/
theorem load_confined_of_calm {loader : Loader ρ} (hcalm : ∀ e, ¬ loader.Escapes e) (data : Bytes) :
    (load loader data).Confined (Has Host.Reliable) LoadError.OfInput := by
  have hlockstep : Host.Lockstep (Host.Same Host.Reliable) :=
    Host.reliable_stable.lockstep fun _ _ h ↦ h
  refine confined_of_inStep (load_coupled hlockstep.toPliant
    (Linker.binding_of_stable Host.reliable_stable) hlockstep (fun _ _ h ↦ h) ?_ (fun _ he ↦ he)
    (fun e he ↦ hcalm e he) data)
  intro e he
  cases e with
  | host e => exact he
  | relocation e => exact he

theorem load_confined {loader : Loader ρ} (hresolver : loader.resolver = none) (data : Bytes) :
    (load loader data).Confined (Has Host.Reliable) LoadError.OfInput :=
  load_confined_of_calm (Loader.not_escapes hresolver) data

/-- The loops of a load do what they would do without their limits, and end, however the blocks are
read and wherever a scan has got to. -/
structure LoopsEnd (sources : Sources ρ) (data : Bytes) : Prop where
  blocks : ∀ executable pos, ∃ blocks last pos',
    Decoder.Repeats (Block.nextOfAll? executable) (.ofBytes data none) pos blocks last pos' ∧
      run (Block.decodeAll executable (.ofBytes data none)) pos = (last.map fun _ ↦ blocks, pos')
  contents : ∀ executable, Block.LoopsEnd executable (.ofBytes data none)
  scans : ∀ scanner, Scanner.LoopsEnd sources scanner

theorem loopsEnd (sources : Sources ρ) (data : Bytes) : LoopsEnd sources data where
  blocks executable pos := by
    obtain ⟨blocks, last, pos', hloop, -, hrun⟩ :=
      Block.decodeAll_repeats executable (.ofBytes data none) pos
    exact ⟨blocks, last, pos', hloop, hrun⟩
  contents executable := Block.loopsEnd executable _
  scans scanner := Scanner.loopsEnd sources scanner

/-- A load of any bytes into an empty program ends, and gives back a result or says what is wrong with
the bytes. -/
theorem load_answers (types : Catalog) (base : Int) (registry : Option Registry) (lookups : ρ)
    (data : Bytes) :
    LoopsEnd (ρ := ρ) ⟨some types, none⟩ data ∧
      ((∃ result, (load ⟨types, base, none⟩ data ⟨.ofProgram .empty, registry, lookups⟩).result =
          .ok result) ∨
        (∃ e, (load ⟨types, base, none⟩ data ⟨.ofProgram .empty, registry, lookups⟩).result =
          .error (.parse e)) ∨
        ∃ e, (load ⟨types, base, none⟩ data ⟨.ofProgram .empty, registry, lookups⟩).result =
          .error (.relocation e) ∧ e.OfInput) := by
  refine ⟨loopsEnd _ data, ?_⟩
  have hconfined : (load (ρ := ρ) ⟨types, base, none⟩ data).Confined (Has Host.Reliable)
      LoadError.OfInput := load_confined rfl data
  have hraises := hconfined.raises ⟨.ofProgram .empty, registry, lookups⟩
    (Host.reliable_ofProgram .empty)
  cases hresult : (load ⟨types, base, none⟩ data ⟨.ofProgram .empty, registry, lookups⟩).result with
  | ok result => exact Or.inl ⟨result, rfl⟩
  | error e =>
    have he : e.OfInput := hraises e hresult
    cases e with
    | parse e => exact Or.inr (Or.inl ⟨e, rfl⟩)
    | relocation e => exact Or.inr (Or.inr ⟨e, rfl, he⟩)
    | imageBase base => exact he.elim
    | host e => exact he.elim
    | access e => exact he.elim
    | resolve e => exact he.elim

end Loading

end Hunks
