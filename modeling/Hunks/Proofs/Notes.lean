import Mathlib
import Hunks.Proofs.Host.Twins
import Hunks.Proofs.IntMap

namespace Hunks

open Hunks.Action (run InStep Relates)

/-- A remark about a place in a program. -/
inductive Note where
  | label (label : Label)
  | function (address : Int) (function : Function)
  | entryPoint (address : Int)
  | data (address : Int) (type : Option DataType)
  | reference (source target : Int)

namespace Note

/-- The functions that a note declares, by their addresses. -/
def functions : Note → List (Int × Function)
  | .function address declared => [(address, declared)]
  | _ => []

def types : Note → List (Int × Option DataType)
  | .data address type => [(address, type)]
  | _ => []

def references : Note → List (Int × Int)
  | .reference source target => [(source, target)]
  | _ => []

end Note

namespace Program

variable {program : Program} {notes more : List Note} {address : Int}

def take (program : Program) : Note → Program
  | .label label => (program.addLabel label).2
  | .function address function => program.setFunction address function
  | .entryPoint address => program.addEntryPoint address
  | .data address type => program.setData address type
  | .reference source target => program.addReference source target

/-- A program with notes taken one after the other. -/
def annotate (notes : List Note) (program : Program) : Program :=
  notes.foldl Program.take program

@[simp] theorem annotate_nil (program : Program) : program.annotate [] = program := rfl

theorem annotate_cons (note : Note) (notes : List Note) (program : Program) :
    program.annotate (note :: notes) = (program.take note).annotate notes := rfl

theorem annotate_append (notes more : List Note) (program : Program) :
    program.annotate (notes ++ more) = (program.annotate notes).annotate more :=
  List.foldl_append

theorem addLabel_known {label : Label} (h : (program.address? label.name).isSome) :
    (program.addLabel label).2 = program := by
  obtain ⟨address, ha⟩ := Option.isSome_iff_exists.mp h
  rw [addLabel, ha]

theorem addEntryPoint_known (h : address ∈ program.entryPoints) : program.addEntryPoint address = program := by
  rw [addEntryPoint, if_pos (Array.contains_iff_mem.mpr h)]

theorem take_withMemory (program : Program) (memory : Memory) (note : Note) :
    { program with memory }.take note = { program.take note with memory } := by
  cases note with
  | label label =>
    simp only [Program.take, addLabel, address?]
    split <;> rfl
  | entryPoint address =>
    simp only [Program.take, addEntryPoint]
    split <;> rfl
  | function address function => rfl
  | data address type => rfl
  | reference source target => rfl

/-- Notes do not look at the memory. -/
theorem annotate_withMemory (program : Program) (memory : Memory) (notes : List Note) :
    { program with memory }.annotate notes = { program.annotate notes with memory } := by
  induction notes generalizing program with
  | nil => rfl
  | cons note notes ih => rw [annotate_cons, take_withMemory, ih, annotate_cons]

theorem memory_annotate (program : Program) (notes : List Note) :
    (program.annotate notes).memory = program.memory := by
  have h : program.annotate notes = { program.annotate notes with memory := program.memory } :=
    annotate_withMemory program program.memory notes
  rw [h]

/-- What each note does to the parts of a program that later notes may write over. -/
theorem take_parts (program : Program) (note : Note) :
    (program.take note).functions = program.functions.puts note.functions ∧
      (program.take note).data = program.data.puts note.types ∧
      (program.take note).references = program.references ++ note.references.toArray := by
  cases note with
  | label label =>
    simp only [Program.take, addLabel]
    split <;> exact ⟨rfl, rfl, by simp [Note.references]⟩
  | entryPoint address =>
    simp only [Program.take, addEntryPoint]
    split <;> exact ⟨rfl, rfl, by simp [Note.references]⟩
  | function address function => exact ⟨rfl, rfl, by simp [Program.take, setFunction, Note.references]⟩
  | data address type => exact ⟨rfl, rfl, by simp [Program.take, setData, Note.references]⟩
  | reference source target =>
    exact ⟨rfl, rfl, by simp [Program.take, addReference, Note.references]⟩

theorem annotate_parts (program : Program) (notes : List Note) :
    (program.annotate notes).functions = program.functions.puts (notes.flatMap Note.functions) ∧
      (program.annotate notes).data = program.data.puts (notes.flatMap Note.types) ∧
      (program.annotate notes).references =
        program.references ++ (notes.flatMap Note.references).toArray := by
  induction notes generalizing program with
  | nil => exact ⟨rfl, rfl, by simp⟩
  | cons note notes ih =>
    obtain ⟨hfunctions, hdata, hreferences⟩ := take_parts program note
    obtain ⟨hfunctions', hdata', hreferences'⟩ := ih (program.take note)
    rw [annotate_cons, hfunctions', hdata', hreferences', hfunctions, hdata, hreferences]
    simp [IntMap.puts_append]

/-- The labels and entry points that a note asks for are there. -/
def Has (program : Program) : Note → Prop
  | .label label => (program.address? label.name).isSome
  | .entryPoint address => address ∈ program.entryPoints
  | _ => True

theorem has_take (program : Program) (note : Note) : (program.take note).Has note := by
  cases note with
  | label label =>
    show ((program.addLabel label).2.address? label.name).isSome
    cases hl : program.address? label.name with
    | some address =>
      rw [addLabel_known (by rw [hl]; rfl), hl]
      rfl
    | none =>
      rw [addLabel_eq label hl]
      dsimp only
      rw [address?_append, hl]
      simp
  | entryPoint address =>
    show address ∈ (program.addEntryPoint address).entryPoints
    rw [addEntryPoint]
    split <;> rename_i h
    · exact Array.contains_iff_mem.mp h
    · exact Array.mem_push_self
  | function address function => trivial
  | data address type => trivial
  | reference source target => trivial

theorem Has.take {note : Note} (h : program.Has note) (other : Note) : (program.take other).Has note := by
  have hlabels : ∀ name address, program.address? name = some address →
      (program.take other).address? name = some address := by
    intro name address ha
    cases other with
    | label label => exact address?_addLabel ha
    | entryPoint address =>
      simp only [Program.take, addEntryPoint]
      split <;> exact ha
    | function address function => exact ha
    | data address type => exact ha
    | reference source target => exact ha
  have hpoints : ∀ address ∈ program.entryPoints, address ∈ (program.take other).entryPoints := by
    intro address hm
    cases other with
    | label label =>
      simp only [Program.take, addLabel]
      split <;> exact hm
    | entryPoint address =>
      simp only [Program.take, addEntryPoint]
      split
      · exact hm
      · exact Array.mem_push_of_mem _ hm
    | function address function => exact hm
    | data address type => exact hm
    | reference source target => exact hm
  cases note with
  | label label =>
    obtain ⟨address, ha⟩ := Option.isSome_iff_exists.mp h
    show ((program.take other).address? label.name).isSome
    rw [hlabels _ _ ha]
    rfl
  | entryPoint address => exact hpoints address h
  | function address function => trivial
  | data address type => trivial
  | reference source target => trivial

theorem Has.annotate {note : Note} (h : program.Has note) (notes : List Note) :
    (program.annotate notes).Has note := by
  induction notes generalizing program with
  | nil => exact h
  | cons other notes ih => exact ih (h.take other)

theorem has_annotate {note : Note} (program : Program) (h : note ∈ notes) :
    (program.annotate notes).Has note := by
  obtain ⟨pre, post, rfl⟩ := List.append_of_mem h
  rw [annotate_append, annotate_cons]
  exact (has_take _ note).annotate post

theorem annotate_had (h : ∀ note ∈ notes, program.Has note) :
    (program.annotate notes).labels = program.labels ∧
      (program.annotate notes).entryPoints = program.entryPoints := by
  induction notes generalizing program with
  | nil => exact ⟨rfl, rfl⟩
  | cons note notes ih =>
    obtain ⟨hnote, hnotes⟩ := List.forall_mem_cons.mp h
    have hsame : (program.take note).labels = program.labels ∧
        (program.take note).entryPoints = program.entryPoints := by
      cases note with
      | label label =>
        rw [Program.take, addLabel_known hnote]
        exact ⟨rfl, rfl⟩
      | entryPoint address =>
        rw [Program.take, addEntryPoint_known hnote]
        exact ⟨rfl, rfl⟩
      | function address function => exact ⟨rfl, rfl⟩
      | data address type => exact ⟨rfl, rfl⟩
      | reference source target => exact ⟨rfl, rfl⟩
    have hrest : ∀ other ∈ notes, (program.take note).Has other := fun other hm ↦ (hnotes other hm).take note
    obtain ⟨hlabels, hpoints⟩ := ih hrest
    rw [annotate_cons, hlabels, hpoints]
    exact hsame

/-- Notes that are taken again, those that were overwritten left out or overwritten again, only repeat
references. -/
theorem annotate_again (program : Program) (hsub : ∀ note ∈ more, note ∈ notes)
    (hfunctions : ∀ key value, IntMap.last? key (more.flatMap Note.functions) = some value →
      IntMap.last? key (notes.flatMap Note.functions) = some value)
    (htypes : ∀ key value, IntMap.last? key (more.flatMap Note.types) = some value →
      IntMap.last? key (notes.flatMap Note.types) = some value) :
    (program.annotate notes).annotate more = { program.annotate notes with
      references := (program.annotate notes).references ++ (more.flatMap Note.references).toArray } := by
  obtain ⟨hlabels, hpoints⟩ := annotate_had fun note hm ↦ has_annotate program (hsub note hm)
  obtain ⟨hf, hd, hr⟩ := annotate_parts program notes
  obtain ⟨hf', hd', hr'⟩ := annotate_parts (program.annotate notes) more
  have hmemory := memory_annotate (program.annotate notes) more
  rw [hf, IntMap.puts_puts hfunctions, ← hf] at hf'
  rw [hd, IntMap.puts_puts htypes, ← hd] at hd'
  generalize (program.annotate notes).annotate more = last at *
  cases last
  simp_all

end Program

namespace Host

variable {α : Type} {host : Host} {notes : List Note} {p q : Program}

/-- A host with notes taken. -/
def annotate (notes : List Note) (host : Host) : Host :=
  { host with program := host.program.annotate notes }

theorem Reliable.annotate (h : host.Reliable) (notes : List Note) : (host.annotate notes).Reliable := h

theorem Reliable.eq (h : host.Reliable) : host = .ofProgram host.program := by
  rw [ofProgram, ← h]

/-- What does nothing on a host but take notes, unless the host fails. -/
def Takes (notes : List Note) (x : Access α) : Prop :=
  ∀ host, host.Reliable → (run x host).2 = host.annotate notes

theorem createLabel_takes (address : Int) (name origin : String) :
    Takes [.label ⟨address, name, origin⟩] (createLabel address name origin) := by
  intro host h
  rw [run_createLabel h]
  rfl

theorem declareFunction_takes (address : Int) (name : String) (parameters : List Parameter) :
    Takes [.function address ⟨name, parameters⟩, .label ⟨address, name, Label.imported⟩]
      (declareFunction address name parameters) := by
  intro host h
  rw [declareFunction, Action.run_bind_ok (run_enter h _), Action.run_bind_ok (run_change ..),
    Action.run_bind_ok (run_createLabel (by exact h) ..)]
  rfl

theorem addEntryPoint_takes (address : Int) : Takes [.entryPoint address] (addEntryPoint address) := by
  intro host h
  rw [addEntryPoint, Action.run_bind_ok (run_enter h _)]
  rfl

theorem createData_takes (address : Int) (type : Option DataType) :
    Takes [.data address type] (createData address type) := by
  intro host h
  rw [run_createData h]
  rfl

theorem addReference_takes (source target : Int) :
    Takes [.reference source target] (addReference source target) := by
  intro host h
  rw [addReference, Action.run_bind_ok (run_enter h _)]
  rfl

/-- Hosts that have taken the same notes since they had these programs. -/
def Noted (p q : Program) (s t : Host) : Prop :=
  ∃ notes, s = .ofProgram (p.annotate notes) ∧ t = .ofProgram (q.annotate notes)

theorem Takes.relates {x : Access α} (hx : Takes notes x) : x.Relates (Noted p q) := by
  rintro _ _ ⟨before, rfl, rfl⟩
  rw [hx _ (reliable_ofProgram _), hx _ (reliable_ofProgram _)]
  refine ⟨before ++ notes, ?_, ?_⟩
  · rw [Program.annotate_append]
    rfl
  · rw [Program.annotate_append]
    rfl

theorem noting_noted (h : p.memory = q.memory) : Noting (Noted p q) where
  memory := by
    rintro _ _ ⟨notes, rfl, rfl⟩
    exact (p.memory_annotate notes).trans (h.trans (q.memory_annotate notes).symm)
  enter operation _ := by
    rintro s t hst
    obtain ⟨notes, rfl, rfl⟩ := hst
    rw [run_enter (reliable_ofProgram _), run_enter (reliable_ofProgram _)]
    exact .ok rfl ⟨notes, rfl, rfl⟩
  createLabel _ _ _ := (createLabel_takes _ _ _).relates
  declareFunction _ _ _ := (declareFunction_takes _ _ _).relates
  addEntryPoint _ := (addEntryPoint_takes _).relates
  createData _ _ := (createData_takes _ _).relates
  addReference _ _ := (addReference_takes _ _).relates

end Host

end Hunks
