import Mathlib
import Hunks.Proofs.Memory.Changes
import Hunks.Proofs.Names
import Hunks.Proofs.Preserves

namespace Hunks

open Hunks.Action (run)

theorem Program.address?_addLabel {program : Program} {label : Label} {name : String} {address : Int}
    (h : program.address? name = some address) :
    (program.addLabel label).2.address? name = some address := by
  cases hl : program.address? label.name with
  | some known =>
    rw [addLabel, hl]
    exact h
  | none =>
    rw [addLabel_eq label hl]
    dsimp only
    rw [address?_append, h]
    rfl

namespace Host

variable {program program' : Program} {host : Host} {α : Type}

/-- A host that has the memory and the labels of a program, and perhaps more. -/
structure Extends (program : Program) (host : Host) : Prop where
  reliable : host.Reliable
  sound : host.program.memory.Sound
  memory : program.memory.Keeps host.program.memory
  labels : ∀ name address, program.address? name = some address →
    host.program.address? name = some address

theorem Extends.refl (hr : host.Reliable) (hs : host.program.memory.Sound) :
    host.Extends host.program where
  reliable := hr
  sound := hs
  memory := .refl _
  labels _ _ h := h

theorem Extends.trans {host' : Host} (h : host.Extends host'.program) (h' : host'.Extends program) :
    host.Extends program where
  reliable := h.reliable
  sound := h.sound
  memory := h'.memory.trans h.memory
  labels name address ha := h.labels name address (h'.labels name address ha)

theorem Extends.of_memory_eq (h : host.Extends program)
    (hm : program'.memory = host.program.memory)
    (hl : ∀ name address, host.program.address? name = some address →
      program'.address? name = some address) :
    Extends program { host with program := program' } where
  reliable := h.reliable
  sound := by
    dsimp only
    rw [hm]
    exact h.sound
  memory := by
    dsimp only
    rw [hm]
    exact h.memory
  labels name address ha := hl name address (h.labels name address ha)

theorem Extends.withMemory (h : host.Extends program) {memory : Memory} (hs : memory.Sound)
    (hk : program.memory.Keeps memory) :
    (host.withMemory memory).Extends program where
  reliable := h.reliable
  sound := hs
  memory := hk
  labels := h.labels

open Hunks.Action (Preserves)

/-- A property of hosts that calls and notes do not take away. -/
structure Frame (P : Host → Prop) : Prop where
  enter : ∀ operation, (enter operation).Preserves P
  note : ∀ host (program : Program), P host → program.memory = host.program.memory →
    program.labels = host.program.labels → P { host with program }

/-- A property of hosts that calls, labels and notes do not take away. -/
structure Lasting (P : Host → Prop) : Prop where
  enter : ∀ operation, (enter operation).Preserves P
  relabel : ∀ host (program : Program), P host → program.memory = host.program.memory →
    (∀ name address, host.program.address? name = some address →
      program.address? name = some address) → P { host with program }

/-- A property of hosts that labels and notes do not take away, nor a new region of whole long words
without content. -/
structure Stable (P : Host → Prop) : Prop where
  reliable : ∀ host, P host → host.Reliable
  relabel : ∀ host (program : Program), P host → program.memory = host.program.memory →
    (∀ name address, host.program.address? name = some address →
      program.address? name = some address) → P { host with program }
  create : ∀ (host : Host) (plan : Region.Plan) (region : Region) (memory : Memory), P host →
    plan.data = none → (∃ n : Nat, region.size = n * SlotStore.slotSize) →
    Memory.Created plan host.program.memory region memory → P (host.withMemory memory)

variable {P : Host → Prop} {α : Type}

theorem Stable.lasting (hP : Stable P) : Lasting P where
  enter operation host h := by rwa [run_enter (hP.reliable host h)]
  relabel := hP.relabel

theorem extends_stable (program : Program) : Stable (Extends program) where
  reliable _ h := h.reliable
  relabel _ _ h hm hl := h.of_memory_eq hm hl
  create _ _ _ _ h hplan _ hcreated :=
    h.withMemory (hcreated.sound (Or.inl hplan) h.sound) (hcreated.keeps h.memory)

theorem reliable_stable : Stable Reliable where
  reliable _ h := h
  relabel _ _ h _ _ := h
  create _ _ _ _ h _ _ _ := h

/-- Also a host that fails keeps its memory. -/
theorem memory_lasting (memory : Memory) : Lasting fun host ↦ host.program.memory = memory where
  enter operation host h := by
    rw [enter, Action.run_bind, Action.run_get]
    dsimp only
    split
    · exact h
    · exact h
    · exact h
  relabel _ _ h hm _ := hm.trans h

theorem Lasting.frame (hP : Lasting P) : Frame P where
  enter := hP.enter
  note host program h hm hl := hP.relabel host program h hm fun name address ha ↦ by
    rwa [Program.address?, hl]

theorem ask_preserves (hP : Frame P) (operation : Operation) (f : Program → Except AccessError α) :
    (ask operation f).Preserves P := by
  apply Preserves.bind (hP.enter operation)
  intro _ host hhost
  rw [Action.run_bind_ok (Action.run_get host), Action.run_ofExcept]
  exact hhost

theorem createLabel_preserves (hP : Lasting P) (address : Int) (name origin : String) :
    (createLabel address name origin).Preserves P := by
  refine .bind (hP.enter _) fun _ host h ↦ ?_
  refine hP.relabel host (host.program.addLabel ⟨address, name, origin⟩).2 h ?_
    fun _ _ ha ↦ Program.address?_addLabel ha
  rw [Program.addLabel]
  split <;> rfl

theorem declareFunction_preserves (hP : Frame P) {address : Int} {name : String}
    (hl : (createLabel address name Label.imported).Preserves P) (parameters : List Parameter) :
    (declareFunction address name parameters).Preserves P := by
  refine .bind (hP.enter _) fun _ ↦ .bind (fun host h ↦ ?_) fun _ ↦ .bind hl fun _ ↦ .pure _
  exact hP.note host (host.program.setFunction address ⟨name, parameters⟩) h rfl rfl

theorem addEntryPoint_preserves (hP : Frame P) (address : Int) : (addEntryPoint address).Preserves P := by
  refine .bind (hP.enter _) fun _ host h ↦ ?_
  have hkept : (host.program.addEntryPoint address).memory = host.program.memory ∧
      (host.program.addEntryPoint address).labels = host.program.labels := by
    rw [Program.addEntryPoint]
    split
    · exact ⟨rfl, rfl⟩
    · exact ⟨rfl, rfl⟩
  exact hP.note host _ h hkept.1 hkept.2

theorem createData_preserves (hP : Frame P) (address : Int) (type : Option DataType) :
    (createData address type).Preserves P :=
  .bind (hP.enter _) fun _ host h ↦ hP.note host (host.program.setData address type) h rfl rfl

theorem addReference_preserves (hP : Frame P) (source target : Int) :
    (addReference source target).Preserves P :=
  .bind (hP.enter _) fun _ host h ↦ hP.note host (host.program.addReference source target) h rfl rfl

theorem createBlock_preserves (hP : Stable P) {plan : Region.Plan} {n : Nat}
    (hdata : plan.data = none) (hsize : plan.size = some ((n : Int) * SlotStore.slotSize)) :
    (createBlock plan).Preserves P := by
  intro host h
  rw [run_createBlock (hP.reliable host h)]
  cases hc : Memory.create plan host.program.memory with
  | error e => exact h
  | ok created =>
    have hcreated := Memory.create_eq_ok hc
    refine hP.create host plan created.1 created.2 h hdata ⟨n, ?_⟩ hcreated
    have hplanned := hcreated.size
    rw [Memory.plannedSize, hsize] at hplanned
    exact (Except.ok.inj hplanned).symm

/-- Bytes may be written wherever the program has no memory. -/
theorem setBytes_preserves (hs : program.memory.Sound) {address : Int} {bytes : Bytes}
    (hclear : program.memory.Clear address bytes.size) :
    (setBytes address bytes).Preserves (Extends program) := by
  intro host h
  rw [run_setBytes h.reliable]
  cases hw : host.program.memory.write address bytes with
  | error e => exact h
  | ok memory => exact h.withMemory (h.sound.write hw) (h.memory.write h.sound hs hw hclear)

end Host

end Hunks
