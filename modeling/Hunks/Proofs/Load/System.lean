import Mathlib
import Hunks.Proofs.Load.InStep
import Hunks.Proofs.Notes

namespace Hunks

open Hunks.Action (run InStep)

namespace Memory

variable {memory before : Memory} {plan : Region.Plan}

/-- A memory with one more region, if there is room for it. -/
def attempt (plan : Region.Plan) (memory : Memory) : Memory :=
  match memory.create plan with
  | .ok (_, memory) => memory
  | .error _ => memory

/-- A region cannot be created. -/
def Refuses (plan : Region.Plan) (memory : Memory) : Prop :=
  ∃ e, memory.create plan = .error e

theorem attempt_refused (h : memory.Refuses plan) : memory.attempt plan = memory := by
  obtain ⟨e, he⟩ := h
  rw [attempt, he]

theorem keeps_of_subset (h : before ⊆ memory) : before.Keeps memory :=
  fun old hm ↦ ⟨old, h hm, .refl old⟩

/-- No room is made where regions are kept. -/
theorem Keeps.refuses (h : before.Keeps memory) (hr : before.Refuses plan) : memory.Refuses plan := by
  obtain ⟨e, he⟩ := hr
  cases hc : memory.create plan with
  | error e => exact ⟨e, hc⟩
  | ok created =>
    have hcreated := create_eq_ok hc
    have hapart : ∀ old ∈ before, (planned plan created.1.size).Apart old := by
      intro old hm
      have ha := hcreated.apart_old h hm
      have hstart := hcreated.start
      simp only [Region.Apart, Region.stop, planned] at ha ⊢
      omega
    rw [create_apart hcreated.size hcreated.positive hapart] at he
    cases he

theorem subset_attempt (plan : Region.Plan) (memory : Memory) : memory ⊆ memory.attempt plan := by
  rw [attempt]
  split <;> rename_i hc
  · rw [(create_eq_ok hc).memory]
    exact fun other hm ↦ mem_insert.mpr (Or.inr hm)
  · exact fun _ hm ↦ hm

theorem refuses_attempt (plan : Region.Plan) (memory : Memory) : (memory.attempt plan).Refuses plan := by
  rw [attempt]
  split <;> rename_i hc
  · have hcreated := create_eq_ok hc
    rename_i region after
    cases hagain : after.create plan with
    | error e => exact ⟨e, hagain⟩
    | ok created =>
      -- the region would lie apart from itself
      have hcreated' := create_eq_ok hagain
      have hsize : created.1.size = region.size := Except.ok.inj (hcreated'.size.symm.trans hcreated.size)
      have ha := hcreated'.apart region hcreated.mem
      have hstart := hcreated.start
      have hstart' := hcreated'.start
      have hpos := hcreated.positive
      simp only [Region.Apart, Region.stop] at ha
      omega
  · exact ⟨_, hc⟩

theorem isSome_named?_of_subset {name : String} (h : before ⊆ memory)
    (hn : (before.named? name).isSome) : (memory.named? name).isSome := by
  obtain ⟨region, hr⟩ := Option.isSome_iff_exists.mp hn
  refine List.find?_isSome.mpr ⟨region, h (List.mem_of_find?_eq_some hr), ?_⟩
  simpa using List.find?_some hr

end Memory

namespace Program

variable {program : Program}

/-- Creates a region and says something about it, unless there is a region of its name. -/
def erect (plan : Region.Plan) (notes : List Note) (program : Program) : Program :=
  if (program.memory.named? plan.name).isSome then
    program
  else
    { program with memory := program.memory.attempt plan }.annotate notes

/-- What is erected once is not erected again, though its notes may be taken again. -/
theorem erect_again (plan : Region.Plan) (notes : List Note) (program : Program) :
    ∃ memory taken, program.erect plan notes = { program with memory }.annotate taken ∧
      program.memory ⊆ memory ∧ (taken = [] ∨ taken = notes) ∧
      ∀ again : Program, memory ⊆ again.memory →
        ∃ retaken, again.erect plan notes = again.annotate retaken ∧ (retaken = [] ∨ retaken = taken) := by
  by_cases hn : (program.memory.named? plan.name).isSome
  · refine ⟨program.memory, [], if_pos hn, fun _ hm ↦ hm, Or.inl rfl, fun again hs ↦ ⟨[], ?_, Or.inl rfl⟩⟩
    exact if_pos (Memory.isSome_named?_of_subset hs hn)
  · refine ⟨program.memory.attempt plan, notes, if_neg hn, Memory.subset_attempt _ _, Or.inr rfl,
      fun again hs ↦ ?_⟩
    by_cases hagain : (again.memory.named? plan.name).isSome
    · exact ⟨[], if_pos hagain, Or.inl rfl⟩
    · have hrefused : again.memory.Refuses plan :=
        (Memory.keeps_of_subset hs).refuses (Memory.refuses_attempt plan program.memory)
      refine ⟨notes, ?_, Or.inr rfl⟩
      rw [erect, if_neg hagain, Memory.attempt_refused hrefused]

/-- A program that differs from another one at most by references that the other one has as well. -/
def Repeats (program again : Program) : Prop :=
  ∃ more : Array (Int × Int), again = { program with references := program.references ++ more } ∧
    ∀ reference ∈ more, reference ∈ program.references

theorem Repeats.refl (program : Program) : program.Repeats program :=
  ⟨#[], by simp, by simp⟩

end Program

namespace Loading

variable {ρ α : Type} {program : Program} {registry : Option Registry} {lookups : ρ} {notes : List Note}

theorem run_annotate_takes {x : Host.Access α} (hx : Host.Takes notes x) (operation : Operation)
    (address : Int) :
    run (annotate operation address x) ⟨.ofProgram program, registry, lookups⟩ =
      (.ok (), ⟨.ofProgram (program.annotate notes), registry, lookups⟩) := by
  rw [run_annotate, hx _ (Host.reliable_ofProgram _)]
  rfl

/-- What is noted where a function starts. -/
def functionNotes (address : Int) (name : String) : List Note :=
  [.function address ⟨name, []⟩, .label ⟨address, name, Label.imported⟩, .entryPoint address]

theorem run_setFunction (address : Int) (name : String) :
    run (setFunction address name) ⟨.ofProgram program, registry, lookups⟩ =
      (.ok (), ⟨.ofProgram (program.annotate (functionNotes address name)), registry, lookups⟩) := by
  rw [setFunction, Action.run_bind_ok (run_annotate_takes (Host.declareFunction_takes _ _ _) _ _)]
  exact run_annotate_takes (Host.addEntryPoint_takes _) _ _

theorem run_setFunctions (addresses : List Int) (name : String) :
    run (Action.forEach addresses fun address ↦ setFunction address name)
        ⟨.ofProgram program, registry, lookups⟩ =
      (.ok (), ⟨.ofProgram (program.annotate (addresses.flatMap (functionNotes · name))), registry,
        lookups⟩) := by
  induction addresses generalizing program with
  | nil => rfl
  | cons address addresses ih =>
    rw [Action.forEach, Action.run_foldl_cons, Action.run_bind_ok (run_setFunction address name)]
    refine ih.trans ?_
    rw [List.flatMap_cons, Program.annotate_append]

theorem run_attempt_createBlock (program : Program) (registry : Option Registry) (lookups : ρ)
    (plan : Region.Plan) : ∃ found, run (createBlock plan) ⟨.ofProgram program, registry, lookups⟩ =
      (.ok found, ⟨.ofProgram { program with memory := program.memory.attempt plan }, registry, lookups⟩) := by
  rw [run_createBlock (Host.reliable_ofProgram _), Memory.attempt]
  dsimp only [Host.ofProgram]
  cases program.memory.create plan with
  | error e => exact ⟨none, rfl⟩
  | ok created => exact ⟨some created.1, rfl⟩

theorem run_onHost_getBlock (name : String) :
    run (onHost (Host.getBlock name)) ⟨.ofProgram program, registry, lookups⟩ =
      (.ok (program.memory.named? name), ⟨.ofProgram program, registry, lookups⟩) := by
  rw [onHost, Action.run_focus, Action.run_mapError, Host.getBlock, Host.run_ask (Host.reliable_ofProgram _)]
  rfl

variable (loader : Loader ρ)

def execPlan : Region.Plan where
  name := "EXEC"
  address := execBase
  size := some 4
  initialized := false

def execNotes : List Note :=
  [.data execBase (some (loader.types.pointer "ExecBase"))]

def customPlan : Region.Plan where
  name := "Custom"
  address := customBase
  size := some customSize
  write := true
  initialized := false

def customNotes : List Note :=
  [.data customBase (loader.types.get? "Custom"), .label ⟨customBase, "Custom", Label.imported⟩]

theorem run_createExec :
    run (createExec loader) ⟨.ofProgram program, registry, lookups⟩ =
      (.ok (), ⟨.ofProgram (program.erect execPlan (execNotes loader)), registry, lookups⟩) := by
  rw [createExec, Action.run_bind_ok (run_onHost_getBlock "EXEC"), Program.erect]
  change _ = (_, (⟨.ofProgram (if (program.memory.named? "EXEC").isSome then _ else _), _, _⟩ : Loading ρ))
  cases program.memory.named? "EXEC" with
  | some region => rfl
  | none =>
    obtain ⟨found, hcreate⟩ := run_attempt_createBlock program registry lookups execPlan
    exact (Action.run_bind_ok hcreate).trans (run_annotate_takes (Host.createData_takes _ _) _ _)

theorem run_createCustom :
    run (createCustom loader) ⟨.ofProgram program, registry, lookups⟩ =
      (.ok (), ⟨.ofProgram (program.erect customPlan (customNotes loader)), registry, lookups⟩) := by
  rw [createCustom, Action.run_bind_ok (run_onHost_getBlock "Custom"), Program.erect]
  change _ = (_, (⟨.ofProgram (if (program.memory.named? "Custom").isSome then _ else _), _, _⟩ : Loading ρ))
  cases program.memory.named? "Custom" with
  | some region => rfl
  | none =>
    obtain ⟨found, hcreate⟩ := run_attempt_createBlock program registry lookups customPlan
    refine (Action.run_bind_ok (Action.run_info _ _)).trans ((Action.run_bind_ok hcreate).trans ?_)
    rw [Action.run_bind_ok (run_annotate_takes (Host.createData_takes _ _) _ _)]
    exact run_annotate_takes (Host.createLabel_takes _ _ _) _ _

/-- A program with functions noted in it and with the regions of the system. -/
def prepare (calls : List Note) (program : Program) : Program :=
  ((program.annotate calls).erect execPlan (execNotes loader)).erect customPlan (customNotes loader)

theorem run_finish (image : Image) (addresses : List Int) (linker : Linker) :
    run (finish loader image addresses linker) ⟨.ofProgram program, registry, lookups⟩ =
      run (conclude loader image addresses linker.buffers.toList (answer image addresses linker))
        ⟨.ofProgram (prepare loader
          (linker.entryPoints.toList.flatMap (functionNotes · Linker.startupName)) program), registry,
          lookups⟩ := by
  rw [finish, Action.run_bind_ok (run_setFunctions _ _), Action.run_bind_ok (run_createExec loader),
    Action.run_bind_ok (run_createCustom loader)]
  rfl

theorem prepare_again (calls : List Note) (program : Program) :
    ∃ memory exec custom, prepare loader calls program =
        { program with memory }.annotate (calls ++ exec ++ custom) ∧
      (exec = [] ∨ exec = execNotes loader) ∧ (custom = [] ∨ custom = customNotes loader) ∧
      ∀ again : Program, memory ⊆ again.memory → ∃ exec' custom',
        prepare loader calls again = again.annotate (calls ++ exec' ++ custom') ∧
          (exec' = [] ∨ exec' = exec) ∧ (custom' = [] ∨ custom' = custom) := by
  obtain ⟨middle, exec, hfirst, -, hexec, hexec'⟩ :=
    Program.erect_again execPlan (execNotes loader) (program.annotate calls)
  obtain ⟨memory, custom, hsecond, hsub, hcustom, hcustom'⟩ :=
    Program.erect_again customPlan (customNotes loader) ({ program with memory := middle }.annotate (calls ++ exec))
  rw [Program.memory_annotate] at hsub
  refine ⟨memory, exec, custom, ?_, hexec, hcustom, fun again hs ↦ ?_⟩
  · rw [prepare, hfirst, ← Program.annotate_withMemory, ← Program.annotate_append, hsecond,
      ← Program.annotate_withMemory, ← Program.annotate_append]
  · have hmemory : (again.annotate calls).memory = again.memory := again.memory_annotate calls
    obtain ⟨retaken, hagain, hretaken⟩ := hexec' (again.annotate calls) (by
      rw [hmemory]
      exact List.Subset.trans hsub hs)
    rw [← Program.annotate_append] at hagain
    obtain ⟨retaken', hagain', hretaken'⟩ := hcustom' (again.annotate (calls ++ retaken))
      (by rwa [Program.memory_annotate])
    exact ⟨retaken, retaken', by rw [prepare, hagain, hagain', ← Program.annotate_append], hretaken,
      hretaken'⟩

/-- Notes about the system may be taken again or not, in front of all others. -/
theorem annotate_prepared {calls exec exec' custom custom' found : List Note}
    (hcalls : calls.flatMap Note.types = []) (hexec : exec = [] ∨ exec = execNotes loader)
    (hexec' : exec' = [] ∨ exec' = exec) (hcustom : custom = [] ∨ custom = customNotes loader)
    (hcustom' : custom' = [] ∨ custom' = custom) :
    (program.annotate (calls ++ exec ++ custom ++ found)).Repeats
      ((program.annotate (calls ++ exec ++ custom ++ found)).annotate
        (calls ++ exec' ++ custom' ++ found)) := by
  have hsub : ∀ note ∈ calls ++ exec' ++ custom' ++ found, note ∈ calls ++ exec ++ custom ++ found := by
    intro note hm
    rcases hexec' with rfl | rfl <;> rcases hcustom' with rfl | rfl <;>
      simp only [List.mem_append, List.not_mem_nil] at hm ⊢ <;> tauto
  refine ⟨_, Program.annotate_again program hsub (fun key value h ↦ ?_) (fun key value h ↦ ?_), ?_⟩
  · have hexec : exec.flatMap Note.functions = [] := by rcases hexec with rfl | rfl <;> rfl
    have hcustom : custom.flatMap Note.functions = [] := by rcases hcustom with rfl | rfl <;> rfl
    have hexec' : exec'.flatMap Note.functions = [] :=
      hexec'.elim (fun h ↦ by rw [h]; rfl) fun h ↦ by rw [h, hexec]
    have hcustom' : custom'.flatMap Note.functions = [] :=
      hcustom'.elim (fun h ↦ by rw [h]; rfl) fun h ↦ by rw [h, hcustom]
    simpa only [List.flatMap_append, hexec, hexec', hcustom, hcustom'] using h
  · simp only [List.flatMap_append, hcalls, List.nil_append] at h ⊢
    refine IntMap.last?_of_groups ?_ ?_ ?_ h
    · exact hexec'.imp (fun h ↦ by rw [h]; rfl) fun h ↦ by rw [h]
    · exact hcustom'.imp (fun h ↦ by rw [h]; rfl) fun h ↦ by rw [h]
    · -- the two regions do not start at one address
      rcases hexec with rfl | rfl <;> rcases hcustom with rfl | rfl <;>
        simp [execNotes, customNotes, Note.types, execBase, customBase]
  · intro reference hm
    rw [(program.annotate_parts _).2.2]
    obtain ⟨note, hnote, hr⟩ := List.mem_flatMap.mp (List.mem_toArray.mp hm)
    refine Array.mem_append.mpr (Or.inr (List.mem_toArray.mpr ?_))
    exact List.mem_flatMap.mpr ⟨note, hsub note hnote, hr⟩

section Again

variable {loader : Loader ρ} {first : Loading ρ} {E : LoadError → Prop} {image : Image}
  {addresses : List Int} {linker : Linker} {result : LoadResult}

/-- What looks at memory and takes notes gives the same answer again, whatever notes were taken in
between, and takes the same notes again. -/
theorem run_again {x : Load ρ α}
    (hx : ∀ p q : Program, p.memory = q.memory → x.InStep (Both (Host.Noted p q)) E) {a : α}
    (hr : run x ⟨.ofProgram program, registry, lookups⟩ = (.ok a, first)) :
    ∃ last : Program, first.host = .ofProgram last ∧ last.memory = program.memory ∧
      ∀ more, ∃ found, last = program.annotate found ∧
        run x ⟨.ofProgram (last.annotate more), registry, lookups⟩ =
          (.ok a, { first with host := .ofProgram (last.annotate (more ++ found)) }) := by
  have hpair : ∀ q : Program, program.memory = q.memory → ∃ found,
      first.host = .ofProgram (program.annotate found) ∧
        run x ⟨.ofProgram q, registry, lookups⟩ =
          (.ok a, { first with host := .ofProgram (q.annotate found) }) := by
    intro q hm
    have hend := hx program q hm ⟨.ofProgram program, registry, lookups⟩ _
      ⟨.ofProgram q, ⟨[], rfl, rfl⟩, rfl⟩
    rw [hr] at hend
    dsimp only at hend
    generalize run x ⟨.ofProgram q, registry, lookups⟩ = p at hend ⊢
    cases hend with
    | ok hab h =>
      subst hab
      obtain ⟨_, ⟨found, hfirst, rfl⟩, rfl⟩ := h
      exact ⟨found, hfirst, rfl⟩
  obtain ⟨found, hfirst, -⟩ := hpair program rfl
  have hmemory := program.memory_annotate found
  refine ⟨_, hfirst, hmemory, fun more ↦ ?_⟩
  obtain ⟨found', hfirst', hrun⟩ := hpair ((program.annotate found).annotate more)
    (((program.annotate found).memory_annotate more).trans hmemory).symm
  rw [hfirst] at hfirst'
  exact ⟨found', congrArg Host.program hfirst', by rw [hrun, Program.annotate_append]⟩

/-- The same on a program to which the regions of the system were added, if they are to be added
again. -/
theorem prepared_again {x : Load ρ α}
    (hx : ∀ p q : Program, p.memory = q.memory → x.InStep (Both (Host.Noted p q)) E) {a : α}
    {calls : List Note} (hcalls : calls.flatMap Note.types = [])
    (hr : run x ⟨.ofProgram (prepare loader calls program), registry, lookups⟩ = (.ok a, first)) :
    ∃ last, run x ⟨.ofProgram (prepare loader calls first.host.program), registry, lookups⟩ =
        (.ok a, { first with host := .ofProgram last }) ∧ first.host.program.Repeats last := by
  obtain ⟨memory, exec, custom, hprepare, hexec, hcustom, hagain⟩ := prepare_again loader calls program
  rw [hprepare] at hr
  obtain ⟨last, hlast, hmemory, hrun⟩ := run_again hx hr
  rw [Program.memory_annotate] at hmemory
  obtain ⟨exec', custom', hprepare', hexec', hcustom'⟩ := hagain last (by rw [hmemory]; exact fun _ h ↦ h)
  obtain ⟨found, hfound, hrun⟩ := hrun (calls ++ exec' ++ custom')
  rw [← Program.annotate_append] at hfound
  have hfirst : first.host.program = last := congrArg Host.program hlast
  rw [hfirst, hprepare']
  refine ⟨_, hrun, ?_⟩
  rw [hfound]
  exact annotate_prepared loader hcalls hexec hexec' hcustom hcustom'

/-- What a load looks for and labels in the end, it finds again, if it erects nothing new. -/
theorem finish_again (hrel : first.host.Reliable)
    (hr : run (finish loader image addresses linker) ⟨.ofProgram program, registry, lookups⟩ =
      (.ok result, first)) (linker' : Linker) (hbuffers : linker'.buffers = linker.buffers)
    (hpoints : linker'.entryPoints = linker.entryPoints) :
    ∃ residents notes last, result = answer image addresses linker residents notes ∧
      run (finish loader image addresses linker') ⟨first.host, registry, lookups⟩ =
        (.ok (answer image addresses linker' residents notes), { first with host := .ofProgram last }) ∧
      first.host.program.Repeats last := by
  rw [run_finish, run_conclude] at hr
  obtain ⟨found, hconclude, rfl⟩ := Action.run_map_eq_ok.mp hr
  obtain ⟨last, hrun, hlast⟩ := prepared_again (E := fun _ ↦ True)
    (fun _ _ h ↦ conclude_inStep (Host.noting_noted h).seen _ _ _ _ fun _ _ ↦ trivial)
    (by simp [List.flatMap_assoc, functionNotes, Note.types]) hconclude
  refine ⟨found.1, found.2, last, rfl, ?_, hlast⟩
  rw [hrel.eq, run_finish, hpoints, hbuffers, run_conclude, Action.run_map, hrun]
  rfl

/-- What a load does when a ROM is in memory. -/
def exploreRom (loader : Loader ρ) (data : Bytes) (base : Int) : Load ρ LoadResult := do
  let entry := base + 2
  let (residents, notes) ← scanResidents loader entry
  setFunction entry entryName
  return {
    kind := .unknown
    image := none
    addresses := [base]
    buffers := [data]
    linkage := none
    residents
    entry := some entry
    diagnostics := notes }

def romPlan (data : Bytes) (base : Int) : Region.Plan where
  name := "ROM"
  address := base
  data := some data
  execute := true

theorem run_loadKickstart (data : Bytes) (base : Int) :
    run (loadKickstart loader data base) ⟨.ofProgram program, registry, lookups⟩ =
      run (exploreRom loader data base) ⟨.ofProgram ({ program with
        memory := program.memory.attempt (romPlan data base) }.erect customPlan (customNotes loader)),
        registry, lookups⟩ := by
  obtain ⟨found, hcreate⟩ := run_attempt_createBlock program registry lookups (romPlan data base)
  refine (Action.run_bind_ok (Action.run_info _ _)).trans ((Action.run_bind_ok hcreate).trans ?_)
  exact Action.run_bind_ok (run_createCustom loader)

theorem exploreRom_inStep {R : Host → Host → Prop} (hN : Host.Noting R) (data : Bytes) (base : Int)
    (hE : ∀ e, loader.Escapes e → E (.resolve e)) :
    (exploreRom loader data base).InStep (Both R) E :=
  .bind (scanResidents_inStep hN.seen _ hE) fun _ ↦ .bind (setFunction_inStep hN.seen _ _) fun _ ↦ .pure _

theorem linkage_of_exploreRom {loading : Loading ρ} {data : Bytes} {base : Int}
    (hr : run (exploreRom loader data base) loading = (.ok result, first)) : result.linkage = none := by
  obtain ⟨_, _, -, hr⟩ := Action.run_bind_eq_ok.mp hr
  obtain ⟨_, _, -, hr⟩ := Action.run_bind_eq_ok.mp hr
  cases hr
  rfl

theorem loadKickstart_again {data : Bytes} {base : Int}
    (hr : run (loadKickstart loader data base) ⟨.ofProgram program, registry, lookups⟩ =
      (.ok result, first)) :
    result.linkage = none ∧ ∃ last,
      run (loadKickstart loader data base) ⟨first.host, registry, lookups⟩ =
        (.ok result, { first with host := .ofProgram last }) ∧ first.host.program.Repeats last := by
  rw [run_loadKickstart] at hr
  obtain ⟨memory, custom, herect, hsub, hcustom, hagain⟩ := Program.erect_again customPlan
    (customNotes loader) { program with memory := program.memory.attempt (romPlan data base) }
  rw [herect] at hr
  obtain ⟨last, hlast, hmemory, hrun⟩ := run_again (E := fun _ ↦ True)
    (fun _ _ h ↦ exploreRom_inStep (Host.noting_noted h) data base fun _ _ ↦ trivial) hr
  rw [Program.memory_annotate] at hmemory
  dsimp only at hmemory hsub
  -- the ROM is there, so it cannot be created again
  have hrefused : last.memory.Refuses (romPlan data base) := by
    rw [hmemory]
    exact (Memory.keeps_of_subset hsub).refuses (Memory.refuses_attempt _ _)
  obtain ⟨custom', herect', hcustom'⟩ := hagain last (by rw [hmemory]; exact fun _ h ↦ h)
  obtain ⟨found, hfound, hrun⟩ := hrun custom'
  rw [← Program.annotate_append] at hfound
  have hfirst : first.host.program = last := congrArg Host.program hlast
  refine ⟨linkage_of_exploreRom hr, last.annotate (custom' ++ found), ?_, ?_⟩
  · rw [hlast, run_loadKickstart, Memory.attempt_refused hrefused]
    show run (exploreRom loader data base)
      ⟨.ofProgram (last.erect customPlan (customNotes loader)), registry, lookups⟩ = _
    rw [herect', hrun]
  · rw [hfirst, hfound]
    have hnone : ([] : List Note) = [] ∨ [] = execNotes loader := Or.inl rfl
    have hnone' : ([] : List Note) = [] ∨ [] = ([] : List Note) := Or.inl rfl
    exact annotate_prepared loader (List.flatMap_nil : [].flatMap Note.types = []) hnone hnone' hcustom hcustom'

end Again

end Loading

end Hunks
