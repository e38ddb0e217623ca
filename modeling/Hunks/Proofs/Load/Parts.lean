import Mathlib
import Hunks.Load
import Hunks.Proofs.Outcome

namespace Hunks

open Hunks.Action (run)

namespace Loading

variable {ρ α β : Type}

/-- What a load of a file gives back. -/
def answer (image : Image) (addresses : List Int) (linker : Linker) (residents : List Resident)
    (notes : List Diagnostic) : LoadResult where
  kind := image.kind
  image := some image
  addresses
  buffers := linker.buffers.toList
  linkage := some ⟨linker.defs, linker.refs, linker.entryPoints.toList⟩
  residents
  entry := if image.isProgram then addresses.head? else none
  diagnostics := linker.diagnostics.toList ++ notes

/-- Sets the labels of symbols, behind that of the entry if there is one. -/
def labelAll (image : Image) (addresses : List Int) (buffers : List Bytes) (entry : Option Int) (a : α) :
    Load ρ α := do
  if let some address := entry then
    setFunction address entryName
  eachSegment image addresses buffers fun _ segment address _ ↦ labelSymbols segment address
  return a

/-- Looks through the loaded file for what is worth a name. -/
def conclude (loader : Loader ρ) (image : Image) (addresses : List Int) (buffers : List Bytes)
    (answer : List Resident → List Diagnostic → α) : Load ρ α := do
  let first := addresses.head?
  let (residents, notes) ← match first with
    | some address => scanResidents loader address
    | none => pure ([], [])
  let entry := if image.isProgram then first else none
  labelAll image addresses buffers entry (answer residents notes)

/-- What a load does when all of a file is in memory. -/
def finish (loader : Loader ρ) (image : Image) (addresses : List Int) (linker : Linker) :
    Load ρ LoadResult := do
  Action.forEach linker.entryPoints.toList fun address ↦ setFunction address Linker.startupName
  createExec loader
  createCustom loader
  conclude loader image addresses linker.buffers.toList (answer image addresses linker)

/-- What a load does behind its link. -/
def complete (loader : Loader ρ) (image : Image) (addresses : List Int) (linker : Linker) :
    Load ρ LoadResult := do
  eachSegment image addresses linker.buffers.toList writeBack
  materialize loader linker.defs
  materialize loader linker.refs
  finish loader image addresses linker

theorem loadFile_eq (loader : Loader ρ) (file : File) :
    loadFile loader file = (do
      Action.info s!"loading {file.kind.name} at {Text.address loader.base}"
      let (image, ()) ← Action.within () ((Image.ofFile file).mapError .parse)
      let addresses := image.layout loader.base 0
      let (buffers, ()) ← Action.within () ((image.relocate addresses).mapError .relocation)
      eachSegment image addresses buffers createSegment
      Action.info "resolving external symbols..."
      let linker ← runLinker image addresses buffers loader.base (imageEnd image loader.base addresses)
      complete loader image addresses linker) :=
  rfl

theorem run_labelAll (image : Image) (addresses : List Int) (buffers : List Bytes)
    (entry : Option Int) (f : α → β) (a : α) (loading : Loading ρ) :
    run (labelAll image addresses buffers entry (f a)) loading =
      run (f <$> labelAll image addresses buffers entry a) loading := by
  have hlabels : ∀ loading : Loading ρ, run (do
        eachSegment image addresses buffers fun _ segment address _ ↦ labelSymbols segment address
        return f a) loading = run (f <$> do
        eachSegment image addresses buffers fun _ segment address _ ↦ labelSymbols segment address
        return a) loading := by
    intro loading
    rw [Action.run_map, Action.run_bind, Action.run_bind]
    rcases run (eachSegment image addresses buffers _) loading with ⟨_ | _, _⟩ <;> rfl
  unfold labelAll
  cases entry with
  | none => exact hlabels loading
  | some address =>
    rw [Action.run_map]
    dsimp only
    rw [Action.run_bind, Action.run_bind]
    rcases run (setFunction address entryName) loading with ⟨_ | _, loading⟩
    · rfl
    · dsimp only
      rw [hlabels, Action.run_map]

/-- What is found does not depend on the answer that it becomes a part of. -/
theorem run_conclude (loader : Loader ρ) (image : Image) (addresses : List Int) (buffers : List Bytes)
    (answer : List Resident → List Diagnostic → α) (loading : Loading ρ) :
    run (conclude loader image addresses buffers answer) loading =
      run ((fun found ↦ answer found.1 found.2) <$> conclude loader image addresses buffers Prod.mk)
        loading := by
  have hlabels := fun entry residents notes ↦ run_labelAll (ρ := ρ) image addresses buffers entry
    (fun found : List Resident × List Diagnostic ↦ answer found.1 found.2) (residents, notes)
  unfold conclude
  rw [Action.run_map]
  cases addresses.head? with
  | none =>
    dsimp only
    rw [Action.run_bind_ok (Action.run_pure ..), Action.run_bind_ok (Action.run_pure ..), ← Action.run_map]
    exact hlabels _ [] [] loading
  | some address =>
    dsimp only
    rw [Action.run_bind, Action.run_bind]
    rcases run (scanResidents loader address) loading with ⟨e | ⟨residents, notes⟩, loading⟩
    · rfl
    · rw [← Action.run_map]
      exact hlabels _ residents notes loading

/-- What a link in a load does, is what the linker does on the host of the load. -/
theorem run_runLinker {image : Image} {addresses : List Int} {buffers : List Bytes}
    {base imageEnd : Int} {start counted last : Loading ρ} {defs refs : SlotStore}
    (hdefs : run (reserveSlots (.empty Linker.defsName (base + Linker.defsDistance) true)) start =
      (.ok defs, counted))
    (hrefs : run (reserveSlots (.empty Linker.refsName imageEnd false)) counted = (.ok refs, last)) :
    run (runLinker image addresses buffers base imageEnd) start =
      match run (Linker.link image addresses imageEnd)
          { Linker.start last.host buffers base imageEnd with defs, refs } with
      | (.ok (), linker) => (.ok linker, { last with host := linker.host })
      | (.error e, linker) => (.error (.ofLink e), { last with host := linker.host }) := by
  rw [runLinker, Action.run_bind, Action.run_get]
  refine (Action.run_bind_ok hdefs).trans ((Action.run_bind_ok hrefs).trans ?_)
  rw [Action.run_focus, Action.run_mapError, Action.run_bind]
  dsimp only [Linker.start]
  rcases run (Linker.link image addresses imageEnd) _ with ⟨_ | _, linker⟩
  · rfl
  · rfl

end Loading

end Hunks
