import Mathlib
import Hunks.Proofs.Link.Errors
import Hunks.Proofs.Memory.Renamed
import Hunks.Proofs.Notes

namespace Hunks

open Hunks.Action (run Akin Kindred)

namespace Host

variable {known : String → Prop} {own : Int → Prop} {s t : Host} {α β : Type}

/-- Hosts that do not fail by themselves, with programs that are alike but for the names of owned
regions. -/
def Renamed (known : String → Prop) (own : Int → Prop) (s t : Host) : Prop :=
  s.Reliable ∧ ∃ memory, t = s.withMemory memory ∧ s.program.memory.Renamed known own memory

theorem Renamed.refl (h : s.Reliable) : s.Renamed known own s :=
  ⟨h, s.program.memory, rfl, .refl _⟩

theorem Renamed.memory (h : s.Renamed known own t) :
    s.program.memory.Renamed known own t.program.memory := by
  obtain ⟨-, memory, rfl, hm⟩ := h
  exact hm

theorem Renamed.reliable (h : s.Renamed known own t) : t.Reliable := by
  obtain ⟨hs, memory, rfl, -⟩ := h
  exact hs

theorem Renamed.withMemory (h : s.Renamed known own t) {memory memory' : Memory}
    (hm : memory.Renamed known own memory') :
    (s.withMemory memory).Renamed known own (t.withMemory memory') := by
  obtain ⟨hs, _, rfl, -⟩ := h
  exact ⟨hs, memory', rfl, hm⟩

theorem ask_abreast {operation : Operation} {E : AccessError → AccessError → Prop}
    {f : Memory → Except AccessError α}
    (hf : ∀ memory memory', memory.Renamed known own memory' → Kindred E Eq (f memory) (f memory')) :
    (ask operation fun program ↦ f program.memory).Abreast (Renamed known own) E := by
  intro s t h
  rw [run_ask h.1, run_ask h.reliable]
  exact (hf _ _ h.memory).akin h

/-- Two changes of memory that lead to such memory again, where both succeed. -/
theorem changeMemory_akin {operation : Operation} {E : AccessError → AccessError → Prop}
    {Q : α → β → Prop} {f : Memory → Except AccessError (α × Memory)}
    {g : Memory → Except AccessError (β × Memory)} (h : s.Renamed known own t)
    (hf : Kindred E (fun made made' ↦ Q made.1 made'.1 ∧ made.2.Renamed known own made'.2)
      (f s.program.memory) (g t.program.memory)) :
    Akin (Renamed known own) E Q (run (changeMemory operation f) s) (run (changeMemory operation g) t) := by
  rw [run_changeMemory h.1, run_changeMemory h.reliable]
  generalize f s.program.memory = made at hf ⊢
  generalize g t.program.memory = made' at hf ⊢
  cases hf with
  | ok hq => exact .ok hq.1 (h.withMemory hq.2)
  | error he => exact .error he h

/-- A region is created under either of two names, or under none. -/
theorem createBlock_akin (h : s.Renamed known own t) {plan : Region.Plan} {name : String}
    (hn : Region.Named known own plan.address plan.name name) :
    Akin (Renamed known own) (fun _ _ ↦ True)
      (fun region region' ↦ region.name = plan.name ∧ region' = { region with name })
      (run (createBlock plan) s) (run (createBlock { plan with name }) t) := by
  have hmade : Akin (Renamed known own) (fun _ _ ↦ True)
      (fun region region' ↦ region.name = plan.name ∧ region' = { region with name })
      (run (changeMemory .createBlock (Memory.create plan)) s)
      (run (changeMemory .createBlock (Memory.create { plan with name })) t) :=
    changeMemory_akin h (h.memory.create hn)
  rw [createBlock, createBlock, Action.run_bind, Action.run_bind]
  generalize run (changeMemory .createBlock (Memory.create plan)) s = made at hmade ⊢
  generalize run (changeMemory .createBlock (Memory.create { plan with name })) t = made' at hmade ⊢
  cases hmade with
  | ok hq hst => exact .ok hq hst
  | error he hst => exact .error he hst

theorem relates_renamed {x : Access α} {notes : List Note} (hx : Takes notes x) :
    x.Relates (Renamed known own) := by
  rintro s _ ⟨hs, memory, rfl, hm⟩
  rw [hx s hs, hx _ (hs.withMemory memory)]
  refine ⟨hs, memory, ?_, ?_⟩
  · simp only [Host.annotate, Host.withMemory, Program.annotate_withMemory]
  · rw [Host.annotate, Program.memory_annotate]
    exact hm

theorem seen_renamed : Seen (fun _ _ ↦ True) (Renamed known own) where
  sizes _ _ h := h.memory.sizes_eq
  readBytes address size := ask_abreast fun _ _ hm ↦ hm.read address size
  contains address := ask_abreast fun _ _ hm ↦ .ok (hm.contains_eq address)
  find start pattern := ask_abreast fun _ _ hm ↦ .ok (hm.find?_eq start pattern)
  createLabel _ _ _ := relates_renamed (createLabel_takes _ _ _)
  declareFunction _ _ _ := relates_renamed (declareFunction_takes _ _ _)
  addEntryPoint _ := relates_renamed (addEntryPoint_takes _)
  createData _ _ := relates_renamed (createData_takes _ _)
  addReference _ _ := relates_renamed (addReference_takes _ _)

/-- One finds the same region of a known name. -/
theorem getBlock_inStep {name : String} (hk : known name) {E : AccessError → Prop} :
    (getBlock name).InStep (Renamed known own) E := by
  intro s t h
  rw [getBlock, run_ask h.1, run_ask h.reliable, h.memory.named?_eq hk]
  exact .ok rfl h

theorem supple_renamed : Supple known (Renamed known own) where
  getBlock _ hk := (getBlock_inStep (E := fun _ ↦ True) hk).abreast
  createBlock plan s t h := by
    have hn : Region.Named known own plan.address plan.name plan.name := Or.inl rfl
    refine (createBlock_akin h hn).mono (fun _ _ hr ↦ hr) (fun _ _ he ↦ he) ?_
    rintro region _ ⟨hname, rfl⟩
    rw [← hname]
  setBytes address bytes s t h := by
    refine (changeMemory_akin (Q := fun _ _ ↦ True) (E := fun _ _ ↦ True) h ?_).states
    refine (h.memory.write address bytes).bind fun memory memory' hm ↦ .ok ⟨trivial, hm⟩
  convert region fill s t h := by
    refine changeMemory_akin h ?_
    cases region with
    | none => exact .error trivial
    | some region => exact h.memory.convert region fill
  join first second s t h := by
    refine changeMemory_akin h ?_
    cases first with
    | none => exact .error trivial
    | some first =>
      cases second with
      | none => exact .error trivial
      | some second => exact h.memory.join first second

theorem grown_renamed (hk : ∀ name ∈ systemNames, known name) :
    Grown (fun _ _ ↦ True) (Renamed known own) where
  toSeen := seen_renamed
  getBlock name hm := getBlock_inStep (hk name hm)
  create plan _ _ _ := supple_renamed.createBlock plan

/-- Names of regions make no difference to the names that a linker binds. -/
theorem binding_renamed : Linker.Binding (Renamed known own) LinkError.OfInput where
  lookup name := by
    refine Linker.lookup_inStep (fun name s t h ↦ ?_) name
    rw [run_lookupGlobal h.1, run_lookupGlobal h.reliable]
    obtain ⟨-, memory, rfl, -⟩ := id h
    exact .ok rfl h
  createLabel := seen_renamed.createLabel
  reference _ _ _ := trivial

end Host

end Hunks
