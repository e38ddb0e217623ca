import Mathlib
import Hunks.Proofs.Resident.Decodings
import Hunks.Proofs.Resident.Quiet

namespace Hunks

open Hunks.Action (run)

namespace Resident

namespace Scanner

variable {ρ : Type} {sources : Sources ρ} {scanner scanner' : Scanner (List Request × ρ)}
  {resolver : Resolver ρ} {library : String} {stage : Stage} {known : Option Descriptor} {target : Int}
  {found : Option Descriptor × Array Vector}

def desk (scanner : Scanner (List Request × ρ)) : Desk where
  registry := scanner.registry
  requests := scanner.lookups.1
  diagnostics := scanner.diagnostics.toList

/-- The libraries that a scan remembers are those that it asked for. -/
def Ready (scanner : Scanner (List Request × ρ)) : Prop :=
  ∀ library, library ∈ scanner.asked ↔ ∃ request ∈ scanner.desk.requests, request.library = library

theorem Beside.desk (h : Beside scanner scanner') : scanner'.desk = scanner.desk := by
  obtain ⟨_, rfl⟩ := h
  rfl

theorem Beside.ready (h : Beside scanner scanner') (hready : scanner.Ready) : scanner'.Ready := by
  obtain ⟨_, rfl⟩ := h
  exact hready

/-- A decoding in its middle. -/
structure Midway (sources : Sources ρ) (stage : Stage) (known : Option Descriptor)
    (scanner : Scanner (List Request × ρ)) : Prop where
  ready : scanner.Ready
  desk : scanner.desk = stage.after
  keeps : stage.Keeps sources
  supplied : known = stage.supplied?
  listed : ∃ targets : List Int, stage.decoding.vectors = targets.mapIdx (vectorAt stage.supplied?)

theorem Midway.beside (h : Midway sources stage known scanner) (hs : Beside scanner scanner') :
    Midway sources stage known scanner' :=
  ⟨hs.ready h.ready, hs.desk.trans h.desk, h.keeps, h.supplied, h.listed⟩

theorem Midway.next (h : Midway sources stage known scanner) {request? : Option Request} {after : Desk}
    (target : Int) (hready : scanner'.Ready) (hdesk : scanner'.desk = after)
    (hkeeps : (stage.next request? after target).Keeps sources)
    (hsame : ¬ standardVectors.length < stage.decoding.vectors.length ∨ request? = stage.request?) :
    Midway sources (stage.next request? after target) (stage.next request? after target).supplied? scanner' where
  ready := hready
  desk := hdesk
  keeps := hkeeps
  supplied := rfl
  listed := by
    obtain ⟨targets, hvectors⟩ := h.listed
    have hlength : stage.decoding.vectors.length = targets.length := by rw [hvectors, List.length_mapIdx]
    refine ⟨targets ++ [target], ?_⟩
    rw [List.mapIdx_concat, Stage.next, hlength, hvectors]
    refine congrArg (· ++ _) ?_
    rcases hsame with hshort | rfl
    · refine List.ext_getElem (by simp) fun i hi _ ↦ ?_
      rw [List.getElem_mapIdx, List.getElem_mapIdx]
      refine vectorAt_standard ?_ ..
      rw [List.length_mapIdx] at hi
      omega
    · rfl

/-- Until the first function that is no standard one nothing but the registry is consulted. -/
theorem Midway.before (h : Midway sources stage known scanner)
    (hi : stage.decoding.vectors.length = standardVectors.length) :
    scanner.desk = stage.before ∧ known = stage.before.registry.get? stage.decoding.library := by
  obtain ⟨hnone, hafter⟩ := h.keeps.short (by rw [Decoding.IsLong]; omega)
  refine ⟨h.desk.trans hafter, ?_⟩
  rw [h.supplied, Stage.supplied?, Stage.obtained?, hnone, Option.bind_none, Option.or_none]

/-- A decoding has come to what the loop over its table has found. -/
structure Reaches (sources : Sources ρ) (stage : Stage) (found : Option Descriptor × Array Vector)
    (scanner : Scanner (List Request × ρ)) : Prop extends Midway sources stage found.1 scanner where
  vectors : found.2.toList = stage.decoding.vectors

theorem Reaches.beside (h : Reaches sources stage found scanner) (hs : Beside scanner scanner') :
    Reaches sources stage found scanner' :=
  ⟨h.toMidway.beside hs, h.vectors⟩

theorem Midway.sound (h : Midway sources stage known scanner) (isFinished : Bool) :
    Stage.Sound sources { stage with isFinished } where
  short := h.keeps.short
  long hlong :=
    have hsettles := h.keeps.long hlong
    ⟨hsettles.requested, hsettles.answered, hsettles.requests, hsettles.registry, hsettles.diagnostics⟩
  lists := by
    obtain ⟨targets, hlisted⟩ := h.listed
    have hlists := lists_mapIdx stage.supplied? targets
    rw [← hlisted] at hlists
    show Lists stage.supplied? (stage.decoding.vectors.map Vector.address) stage.decoding.vectors
    rwa [hlists.address]

/-- A decoding that has not taken up any function. -/
def opened (library : String) (table : Int) (desk : Desk) : Stage where
  before := desk
  decoding := ⟨library, table, []⟩
  request? := none
  isFinished := false
  after := desk

end Scanner

end Resident

end Hunks
