import Mathlib
import Hunks.Proofs.Load.InStep

namespace Hunks

open Hunks.Action (run)

namespace Operation

/-- The operations that leave remarks about a program, which no other operation asks for. -/
def notes : List Operation := [declareFunction, addEntryPoint, createData, addReference]

theorem not_mem_notes : ∀ operation ∈ onMemory, operation ∉ notes := by
  decide

end Operation

namespace Host

/-- Hosts of one program on which nothing but notes may fail. -/
def Alike (s t : Host) : Prop :=
  s.program = t.program ∧ s.Spares (· ∉ Operation.notes) ∧ t.Spares (· ∉ Operation.notes)

/-- Hosts of one memory on which nothing but notes may fail. -/
def SameMemory : Host → Host → Prop :=
  Action.Common fun memory host ↦ host.program.memory = memory ∧ host.Spares (· ∉ Operation.notes)

theorem Alike.sameMemory {s t : Host} (h : Alike s t) : SameMemory s t :=
  ⟨s.program.memory, ⟨rfl, h.2.1⟩, by rw [h.1], h.2.2⟩

theorem pliant_alike : Pliant Alike where
  memory s t h := by rw [h.1]
  enter operation ho s t h := by
    have hall := Operation.not_mem_notes operation ho
    rw [h.2.1.run_enter hall, h.2.2.run_enter hall]
    exact .ok rfl h
  withMemory s t memory h := by
    obtain ⟨hp, hs, ht⟩ := h
    refine ⟨?_, hs, ht⟩
    simp only [withMemory, hp]

theorem lookupGlobal_alike (name : String) : (lookupGlobal name).InStep Alike fun _ ↦ False := by
  intro s t h
  have hall : Operation.lookupGlobal ∉ Operation.notes := by decide
  rw [lookupGlobal, h.2.1.run_ask hall, h.2.2.run_ask hall, h.1]
  exact .ok rfl h

theorem createLabel_alike (address : Int) (name origin : String) :
    (createLabel address name origin).Relates Alike := by
  intro s t h
  have hall : Operation.createLabel ∉ Operation.notes := by decide
  rw [createLabel, Action.run_bind_ok (h.2.1.run_enter hall), Action.run_bind_ok (h.2.2.run_enter hall)]
  refine ⟨?_, h.2⟩
  simp only [Action.run_bind, Action.run_get, run_change, Action.run_pure, h.1]

/-- Before any note is taken, names are bound in one way. -/
theorem binding_alike : Linker.Binding Alike LinkError.OfInput where
  lookup := Linker.lookup_inStep lookupGlobal_alike
  createLabel := createLabel_alike
  reference _ _ _ := trivial

theorem lockstep_sameMemory : Lockstep SameMemory := by
  have hlasting : ∀ memory, Lasting fun host ↦
      host.program.memory = memory ∧ host.Spares (· ∉ Operation.notes) :=
    fun memory ↦ (memory_lasting memory).and (spares_lasting _)
  have hall : Operation.getBlock ∉ Operation.notes := by decide
  constructor
  case toPliant =>
    refine ⟨⟨fun s t ⟨_, hs, ht⟩ ↦ hs.1.trans ht.1.symm, fun operation ho s t h ↦ ?_⟩, ?_⟩
    · obtain ⟨memory, hs, ht⟩ := h
      have hall := Operation.not_mem_notes operation ho
      rw [hs.2.run_enter hall, ht.2.run_enter hall]
      exact .ok rfl ⟨memory, hs, ht⟩
    · intro s t memory ⟨_, hs, ht⟩
      exact ⟨memory, ⟨rfl, hs.2⟩, rfl, ht.2⟩
  case createLabel =>
    exact fun _ _ _ ↦ .of_preserves fun memory ↦ createLabel_preserves (hlasting memory) _ _ _
  case declareFunction =>
    exact fun _ _ _ ↦ .of_preserves fun memory ↦
      declareFunction_preserves (hlasting memory).frame (createLabel_preserves (hlasting memory) _ _ _) _
  case addEntryPoint =>
    exact fun _ ↦ .of_preserves fun memory ↦ addEntryPoint_preserves (hlasting memory).frame _
  case createData =>
    exact fun _ _ ↦ .of_preserves fun memory ↦ createData_preserves (hlasting memory).frame _ _
  case addReference =>
    exact fun _ _ ↦ .of_preserves fun memory ↦ addReference_preserves (hlasting memory).frame _ _
  case getBlock =>
    intro name s t h
    obtain ⟨memory, hs, ht⟩ := h
    rw [getBlock, hs.2.run_ask hall, ht.2.run_ask hall, hs.1, ht.1]
    exact .ok rfl ⟨memory, hs, ht⟩

end Host

namespace Loading

variable {ρ : Type}

/-- A host that fails in notes only gives the load the result that one gives that does not fail, and
ends with the same memory. -/
theorem load_ignores_notes (loader : Loader ρ) (data : Bytes) (program : Program)
    (limits : List (Operation × Nat)) (registry : Option Registry) (lookups : ρ)
    (h : ∀ limit ∈ limits, limit.1 ∈ Operation.notes) :
    ∃ result plain hampered,
      run (load loader data) ⟨.ofProgram program, registry, lookups⟩ = (result, plain) ∧
      run (load loader data) ⟨⟨program, limits⟩, registry, lookups⟩ = (result, hampered) ∧
      hampered.host.program.memory = plain.host.program.memory ∧
      hampered.registry = plain.registry ∧ hampered.lookups = plain.lookups := by
  have hspares : Host.Spares (· ∉ Operation.notes) ⟨program, limits⟩ := by
    intro operation ho
    refine List.lookup_eq_none_iff.mpr fun limit hm ↦ ?_
    rw [bne_iff_ne]
    rintro rfl
    exact ho (h limit hm)
  have hcoupled : (load loader data).Coupled (Both Host.Alike) (Both Host.SameMemory) fun _ ↦ True :=
    load_coupled Host.pliant_alike Host.binding_alike Host.lockstep_sameMemory
      (fun _ _ h ↦ h.sameMemory) (fun _ _ ↦ trivial) (fun _ _ ↦ trivial) (fun _ _ ↦ trivial) data
  have hend := hcoupled ⟨.ofProgram program, registry, lookups⟩ ⟨⟨program, limits⟩, registry, lookups⟩
    ⟨⟨program, limits⟩, ⟨rfl, (Host.reliable_ofProgram program).spares, hspares⟩, rfl⟩
  rcases hfirst : run (load loader data) ⟨.ofProgram program, registry, lookups⟩ with ⟨result, plain⟩
  rcases hsecond : run (load loader data) ⟨⟨program, limits⟩, registry, lookups⟩ with ⟨_, hampered⟩
  rw [hfirst, hsecond] at hend
  obtain rfl : result = _ := hend.result_eq
  obtain ⟨host, ⟨_, hplain, hhampered⟩, rfl⟩ := hend.states
  exact ⟨result, plain, _, rfl, rfl, hhampered.1.trans hplain.1.symm, rfl, rfl⟩

/-- A program of one instruction. -/
def tinyProgram : Bytes :=
  ([0x3f3, 0, 1, 0, 0, 1, 0x3e9, 1, 0x4e754e75, 0x3f2].flatMap (Bytes.ofNat 4)).toArray

theorem load_ignores_notes_sample :
    let limits : List (Operation × Nat) := [(.createData, 1), (.declareFunction, 0)]
    (∀ limit ∈ limits, limit.1 ∈ Operation.notes) ∧
      ∃ result plain hampered,
        run (load ⟨[], 0x21f000, none⟩ tinyProgram) ⟨.ofProgram .empty, none, ()⟩ =
          (.ok result, plain) ∧
        run (load ⟨[], 0x21f000, none⟩ tinyProgram) ⟨⟨.empty, limits⟩, none, ()⟩ =
          (.ok result, hampered) ∧
        result.entry = some 0x21f000 ∧ plain.host.program.functions ≠ [] ∧
        hampered.host.program.functions = [] ∧
        hampered.host.program.memory = plain.host.program.memory := by
  intro limits
  have h : ∀ limit ∈ limits, limit.1 ∈ Operation.notes := by decide
  obtain ⟨result, plain, hampered, hplain, hhampered, hmemory, -⟩ :=
    load_ignores_notes ⟨[], 0x21f000, none⟩ tinyProgram .empty limits none () h
  have hentry : (run (load ⟨[], 0x21f000, none⟩ tinyProgram) ⟨.ofProgram .empty, none, ()⟩).1.map
        LoadResult.entry = .ok (some 0x21f000) ∧
      (run (load ⟨[], 0x21f000, none⟩ tinyProgram)
        ⟨.ofProgram .empty, none, ()⟩).2.host.program.functions ≠ [] := by decide +kernel
  have hnone : (run (load ⟨[], 0x21f000, none⟩ tinyProgram)
      ⟨⟨.empty, limits⟩, none, ()⟩).2.host.program.functions = [] := by decide +kernel
  rw [hplain] at hentry
  rw [hhampered] at hnone
  obtain ⟨hentry, hfunctions⟩ := hentry
  cases result with
  | error e => cases hentry
  | ok result =>
    exact ⟨h, result, plain, hampered, hplain, hhampered, Except.ok.inj hentry, hfunctions, hnone, hmemory⟩

end Loading

end Hunks
