import Mathlib
import Hunks.Proofs.Link.Stopped
import Hunks.Proofs.Load
import Hunks.Proofs.Load.Creation

namespace Hunks

open Hunks.Action (InStep run)

/-- Errors that a load finds before it touches the program. -/
def LoadError.OfFile : LoadError → Prop
  | .parse _ => True
  | .relocation e => e.OfRelocations
  | .imageBase _ | .host _ | .access _ | .resolve _ => False

/-- What a link that stops at a reference to a name has made of a program: the segments are there with
their relocated bytes, and the labels of the names up to that one. -/
structure Image.Halted (image : Image) (base : Int) (relocated : List Bytes) (name : String)
    (before after : Program) : Prop where
  memory : image.Attempted base relocated before.memory after.memory
  labels : ∃ pre post, image.events (image.layout base 0) = pre ++ .reference name :: post ∧
    after.labels = before.labels ++ (Event.labels
      ((SlotStore.empty Linker.defsName (base + Linker.defsDistance) true).behind after.memory).stop
      ((SlotStore.empty Linker.refsName (Loading.imageEnd image base (image.layout base 0))
        false).behind after.memory).stop
      (Event.firsts (fun name ↦ (before.address? name).isSome) (pre ++ [.reference name]))).toArray
  functions : after.functions = before.functions
  entryPoints : after.entryPoints = before.entryPoints
  data : after.data = before.data
  references : after.references = before.references

namespace Loading

variable {ρ α β : Type} {loader : Loader ρ} {loading loading' : Loading ρ} {data : Bytes}
  {image : Image} {e : LoadError}

/-- The memory that a computation leaves. -/
def memoryAfter (x : Load ρ α) (loading : Loading ρ) : Memory :=
  (run x loading).2.host.program.memory

theorem memoryAfter_bind (x : Load ρ α) {f g : α → Load ρ β}
    (h : ∀ a loading, memoryAfter (f a) loading = memoryAfter (g a) loading) (loading : Loading ρ) :
    memoryAfter (x >>= f) loading = memoryAfter (x >>= g) loading := by
  rw [memoryAfter, memoryAfter, Action.run_bind, Action.run_bind]
  rcases run x loading with ⟨e | a, last⟩
  · rfl
  · exact h a last

theorem memoryAfter_of_noting {x : Load ρ α}
    (hx : ∀ {R : Host → Host → Prop}, Host.Noting R → x.InStep (Both R) fun _ ↦ True)
    (loading : Loading ρ) : memoryAfter x loading = loading.host.program.memory :=
  (confined_of_inStep (hx (Host.memory_lasting loading.host.program.memory).noting)).preserves loading rfl

/-- Whom a load asks for descriptors makes no difference to the memory. -/
theorem memoryAfter_load (loader : Loader ρ) (resolver : Option (Resolver ρ)) (data : Bytes)
    (loading : Loading ρ) :
    memoryAfter (load loader data) loading = memoryAfter (load { loader with resolver } data) loading := by
  have hconclude : ∀ (loader : Loader ρ) image addresses buffers
      (answer : List Resident → List Diagnostic → LoadResult) loading,
      memoryAfter (conclude loader image addresses buffers answer) loading =
        loading.host.program.memory :=
    fun loader image addresses buffers answer ↦ memoryAfter_of_noting fun hN ↦
      conclude_inStep hN.seen image addresses buffers answer fun _ _ ↦ trivial
  have hkickstart : ∀ (loader : Loader ρ) entry (f : List Resident × List Diagnostic → LoadResult) loading,
      memoryAfter (do
        let found ← scanResidents loader entry
        setFunction entry entryName
        return f found) loading = loading.host.program.memory :=
    fun loader entry f ↦ memoryAfter_of_noting fun hN ↦
      .bind (scanResidents_inStep hN.seen _ fun _ _ ↦ trivial) fun _ ↦
        .bind (setFunction_inStep hN.seen _ _) fun _ ↦ .pure _
  refine memoryAfter_bind _ (fun spec loading ↦ ?_) loading
  split
  · rfl
  · refine memoryAfter_bind _ (fun _ loading ↦ ?_) loading
    refine memoryAfter_bind _ (fun _ loading ↦ ?_) loading
    refine memoryAfter_bind (createCustom loader) (fun _ loading ↦ ?_) loading
    exact (hkickstart loader _ _ loading).trans (hkickstart _ _ _ loading).symm
  · refine memoryAfter_bind _ (fun ⟨file, _⟩ loading ↦ ?_) loading
    dsimp only
    split
    · rfl
    rw [loadFile_eq, loadFile_eq]
    refine memoryAfter_bind _ (fun _ loading ↦ ?_) loading
    refine memoryAfter_bind _ (fun ⟨image, _⟩ loading ↦ ?_) loading
    refine memoryAfter_bind _ (fun ⟨buffers, _⟩ loading ↦ ?_) loading
    refine memoryAfter_bind _ (fun _ loading ↦ ?_) loading
    refine memoryAfter_bind _ (fun _ loading ↦ ?_) loading
    refine memoryAfter_bind _ (fun linker loading ↦ ?_) loading
    refine memoryAfter_bind _ (fun _ loading ↦ ?_) loading
    refine memoryAfter_bind (materialize loader linker.defs) (fun _ loading ↦ ?_) loading
    refine memoryAfter_bind (materialize loader linker.refs) (fun _ loading ↦ ?_) loading
    refine memoryAfter_bind _ (fun _ loading ↦ ?_) loading
    refine memoryAfter_bind (createExec loader) (fun _ loading ↦ ?_) loading
    refine memoryAfter_bind (createCustom loader) (fun _ loading ↦ ?_) loading
    exact (hconclude loader _ _ _ _ loading).trans (hconclude _ _ _ _ _ loading).symm

/-- A link of a load that fails, fails at a reference. -/
theorem runLinker_halted {base : Int} {relocated : List Bytes} (hrel : loading.host.Reliable)
    (ho : ∀ segment ∈ image.segments, ∀ reference ∈ segment.references,
      ∀ offset ∈ reference.offsets, 0 ≤ offset) {before : Memory}
    (hcreated : image.Attempted base relocated before loading.host.program.memory)
    (hr : run (runLinker image (image.layout base 0) relocated base
      (imageEnd image base (image.layout base 0))) loading = (.error e, loading')) :
    ∃ name id offset host, e = .relocation (.reference name id offset) ∧
      loading' = { loading with host } ∧ host.Reliable ∧
      image.Halted base relocated name { loading.host.program with memory := before } host.program := by
  rw [run_runLinker (run_reserveSlots hrel _) (run_reserveSlots hrel _)] at hr
  split at hr
  · cases hr
  · rename_i e linker hlink
    obtain ⟨pre, name, post, id, offset, hevents, rfl, hnames⟩ :=
      Linker.link_stopped (by exact steady_table hrel base _) ho hlink
    cases hr
    rw [NameTable.foldl_bind] at hnames
    have hhost : linker.host = _ := congrArg NameTable.host hnames
    refine ⟨name, id, offset, linker.host, rfl, rfl, ?_, ?_⟩
    · rw [hhost]
      exact hrel
    · rw [hhost]
      exact ⟨hcreated, ⟨pre, post, hevents, rfl⟩, rfl, rfl, rfl, rfl⟩

theorem runLinker_reliable {addresses : List Int} {buffers : List Bytes} {base imageEnd : Int}
    {linker : Linker} (hrel : loading.host.Reliable)
    (hr : run (runLinker image addresses buffers base imageEnd) loading = (.ok linker, loading')) :
    loading'.host.Reliable := by
  rw [run_runLinker (run_reserveSlots hrel _) (run_reserveSlots hrel _)] at hr
  split at hr
  · rename_i linker hlink
    cases hr
    have hsteady := steady_table hrel base imageEnd
    have hnames := Linker.link_names (by exact hsteady) hlink
    have hlast : linker.names.Steady := by
      rw [hnames]
      exact NameTable.Steady.foldl hsteady _
    exact hlast.reliable
  · cases hr

theorem complete_error {addresses : List Int} {linker : Linker} (hrel : loading.host.Reliable)
    (hr : run (complete loader image addresses linker) loading = (.error e, loading')) :
    loader.resolver.isSome ∧ ∃ e', e = .resolve e' := by
  have hlockstep := Host.reliable_stable.lockstep fun _ _ h ↦ h
  have hcomplete : (complete loader image addresses linker).Confined (Has Host.Reliable)
      fun e ↦ loader.resolver.isSome ∧ ∃ e', e = .resolve e' :=
    confined_of_inStep (complete_inStep hlockstep.supple hlockstep.growing.grown image addresses linker
      trivial trivial fun e' h ↦ ⟨h.isSome, e', rfl⟩)
  exact hcomplete.raises loading hrel e (congrArg Prod.fst hr)

/-- What is left of a load that fails. -/
inductive Abandoned (loader : Loader ρ) (data : Bytes) (start : Loading ρ) :
    LoadError → Loading ρ → Prop
  | untouched {e : LoadError} : e.OfFile → Abandoned loader data start e start
  | halted {hunks : List Hunk} {image : Image} {relocated : List Bytes} {name : String} {id : Nat}
      {offset : Int} {host : Host} : image.IsRead data hunks →
      (image.relocate (image.layout loader.base 0) ()).result = .ok relocated →
      host.Reliable → image.Halted loader.base relocated name start.host.program host.program →
      Abandoned loader data start (.relocation (.reference name id offset)) { start with host }
  | unresolved {e : ResolveError} {last : Loading ρ} : loader.resolver.isSome →
      last.host.program.memory = memoryAfter (load { loader with resolver := none } data) start →
      (∀ name address, start.host.program.address? name = some address →
        last.host.program.address? name = some address) →
      Abandoned loader data start (.resolve e) last

/-- A load never takes a name away. -/
theorem load_labels {start : Loading ρ} (hrel : start.host.Reliable) {name : String} {address : Int}
    (h : start.host.program.address? name = some address) :
    (run (load loader data) start).2.host.program.address? name = some address := by
  have hstable : Host.Stable fun host ↦ host.Reliable ∧ host.program.address? name = some address := by
    refine ⟨fun _ h ↦ h.1, fun host program h _ hl ↦ ⟨h.1, hl _ _ h.2⟩, ?_⟩
    exact fun _ _ _ _ h _ _ _ ↦ h
  have hlockstep := hstable.lockstep fun _ _ h ↦ h
  have hload : (load loader data).Confined
      (Has fun host ↦ host.Reliable ∧ host.program.address? name = some address) fun _ ↦ True :=
    confined_of_inStep (load_coupled hlockstep.toPliant (Linker.binding_of_stable hstable) hlockstep
      (fun _ _ h ↦ h) (fun _ _ ↦ trivial) (fun _ _ ↦ trivial) (fun _ _ ↦ trivial) data)
  exact (hload.preserves start ⟨hrel, h⟩).2

theorem loadFile_abandoned {file : File} {start last : Loading ρ} (hrel : start.host.Reliable)
    (hread : (File.read data 0 none none).result = .ok file)
    (hr : run (loadFile loader file) start = (.error e, last)) :
    (e.OfFile ∧ last = start) ∨
      (∃ hunks image relocated name id offset host, Image.IsRead data hunks image ∧
        (image.relocate (image.layout loader.base 0) ()).result = .ok relocated ∧
        e = .relocation (.reference name id offset) ∧ last = { start with host } ∧ host.Reliable ∧
        image.Halted loader.base relocated name start.host.program host.program) ∨
      (loader.resolver.isSome ∧ ∃ e', e = .resolve e') := by
  rw [loadFile_eq, Action.run_bind_ok (Action.run_info ..)] at hr
  obtain hr | ⟨⟨image, _⟩, _, himage, hr⟩ := Action.run_bind_eq_error.mp hr
  · obtain ⟨he, rfl⟩ := Action.run_within_eq_error.mp hr
    rw [Action.run_mapError] at he
    obtain ⟨e, -, rfl⟩ := Action.mapError_eq_error.mp he
    exact Or.inl ⟨trivial, rfl⟩
  obtain ⟨hbuilt, rfl⟩ := Action.run_within_eq_ok.mp himage
  obtain ⟨hunks, hi⟩ := Image.exists_isRead hread (Action.run_mapError_eq_ok.mp hbuilt)
  dsimp only at hr
  obtain hr | ⟨⟨relocated, _⟩, _, hrelocate, hr⟩ := Action.run_bind_eq_error.mp hr
  · obtain ⟨he, rfl⟩ := Action.run_within_eq_error.mp hr
    rw [Action.run_mapError] at he
    obtain ⟨e, herror, rfl⟩ := Action.mapError_eq_error.mp he
    exact Or.inl ⟨(Image.relocate_confined hi loader.base 0).raises () trivial e herror, rfl⟩
  obtain ⟨hrelocated, rfl⟩ := Action.run_within_eq_ok.mp hrelocate
  have hresult := congrArg Prod.fst (Action.run_mapError_eq_ok.mp hrelocated)
  dsimp only at hr
  -- from here on the program changes
  have hsegments : (eachSegment (ρ := ρ) image (image.layout loader.base 0) relocated
      createSegment).Confined (Has Host.Reliable) fun _ ↦ False :=
    confined_of_inStep (.forEach fun _ _ ↦ createSegment_inStep
      (Host.reliable_stable.lockstep fun _ _ h ↦ h).supple _ _ _ _)
  obtain ⟨_, created, hcreated, hcreate⟩ := hsegments.exists_ok hrel
  rw [Action.run_bind_ok hcreate, Action.run_bind_ok (Action.run_info ..)] at hr
  obtain ⟨memory, rfl, hattempted⟩ := createSegments_attempted (hi.filled hresult) hrel hcreate
  obtain hr | ⟨linker, linked, hlink, hr⟩ := Action.run_bind_eq_error.mp hr
  · obtain ⟨name, id, offset, host, rfl, rfl, hhost, hhalted⟩ := runLinker_halted hcreated
      (fun _ hm _ hr _ ho ↦ hi.offset_nonneg hm hr ho) hattempted hr
    exact Or.inr (Or.inl ⟨hunks, image, relocated, name, id, offset, host, hi, hresult, rfl, rfl, hhost,
      hhalted⟩)
  · exact Or.inr (Or.inr (complete_error (runLinker_reliable hcreated hlink) hr))

/-- A load that fails is not undone. One that finds something wrong with the file before it links
leaves the program as it was. One that stops at a reference leaves the segments and the labels that it
had made by then, and with a resolver that fails it leaves the memory that it would leave without one. -/
theorem load_abandoned {program : Program} {registry : Option Registry} {lookups : ρ}
    (hr : run (load loader data) ⟨.ofProgram program, registry, lookups⟩ = (.error e, loading)) :
    Abandoned loader data ⟨.ofProgram program, registry, lookups⟩ e loading := by
  set start : Loading ρ := ⟨.ofProgram program, registry, lookups⟩ with hstart
  have hrel : start.host.Reliable := Host.reliable_ofProgram program
  have hunresolved : ∀ e', loader.resolver.isSome → e = .resolve e' →
      Abandoned loader data start e loading := by
    rintro e' hresolver rfl
    have hlast : loading = (run (load loader data) start).2 := (congrArg Prod.snd hr).symm
    refine .unresolved hresolver ?_ fun name address h ↦ ?_
    · rw [hlast]
      exact memoryAfter_load loader none data start
    · rw [hlast]
      exact load_labels hrel h
  -- the lemmas below take the run apart, `hunresolved` is about the whole of it
  have hrun := hr
  rw [load] at hrun
  obtain hrun | ⟨spec, _, hspec, hrun⟩ := Action.run_bind_eq_error.mp hrun
  · rw [Action.run_ofExcept, Prod.mk.injEq] at hrun
    obtain ⟨he, rfl⟩ := hrun
    obtain ⟨e, -, rfl⟩ := Action.mapError_eq_error.mp he
    exact .untouched trivial
  rw [Action.run_ofExcept, Prod.mk.injEq] at hspec
  obtain ⟨-, rfl⟩ := hspec
  rcases spec with _ | _ | base
  · cases hrun
    exact .untouched trivial
  · obtain hrun | ⟨⟨file, _⟩, _, hdecode, hrun⟩ := Action.run_bind_eq_error.mp hrun
    · obtain ⟨he, rfl⟩ := Action.run_within_eq_error.mp hrun
      rw [Action.run_mapError] at he
      obtain ⟨e, -, rfl⟩ := Action.mapError_eq_error.mp he
      exact .untouched trivial
    obtain ⟨hread, rfl⟩ := Action.run_within_eq_ok.mp hdecode
    dsimp only at hrun
    split at hrun
    · cases hrun
    · obtain ⟨he, rfl⟩ | ⟨hunks, image, relocated, name, id, offset, host, hi, hrelocated, rfl, rfl, hhost,
          hhalted⟩ | ⟨hresolver, e', he⟩ := loadFile_abandoned hrel
        (congrArg Prod.fst (Action.run_mapError_eq_ok.mp hread)) hrun
      · exact .untouched he
      · exact .halted hi hrelocated hhost hhalted
      · exact hunresolved e' hresolver he
  · have hkickstart := confined_of_inStep
      (E := fun e ↦ loader.resolver.isSome ∧ ∃ e', e = LoadError.resolve e')
      (loadKickstart_inStep (Host.reliable_stable.lockstep fun _ _ h ↦ h) (fun e' h ↦ ⟨h.isSome, e', rfl⟩)
        data base)
    obtain ⟨hresolver, e', he⟩ := hkickstart.raises start hrel e (congrArg Prod.fst hrun)
    exact hunresolved e' hresolver he

/-- A unit with one instruction and a reference to an unknown name behind it. -/
def overhang : Bytes :=
  ([0x3e7, 0, 0x3e9, 1, 0x4e754e75, 0x3ef, 0x81000001, 0x65787400, 1, 4, 0, 0x3f2].flatMap
    (Bytes.ofNat 4)).toArray

/-- The segment and the label of a load that stopped at a reference stay. -/
theorem load_not_undone :
    (run (load ⟨[], 0x21f000, none⟩ overhang) ⟨.ofProgram .empty, none, ()⟩).1 =
        .error (.relocation (.reference "ext" 0 4)) ∧
      (run (load ⟨[], 0x21f000, none⟩ overhang) ⟨.ofProgram .empty, none, ()⟩).2.host.program =
        { Program.empty with
          memory := [⟨"CODE_0", 0x21f000, 4, some #[0x4e, 0x75, 0x4e, 0x75], true, false, true⟩]
          labels := #[⟨0x21f004, "ext", Label.imported⟩] } := by
  decide +kernel

theorem load_abandoned_sample : ∃ loading,
    run (load ⟨[], 0x21f000, none⟩ overhang) ⟨.ofProgram .empty, none, ()⟩ =
        (.error (.relocation (.reference "ext" 0 4)), loading) ∧
      loading.host.Reliable ∧ loading.host.program.functions = [] ∧
      loading.host.program.entryPoints = #[] ∧ loading.host.program.data = [] ∧
      loading.host.program.references = #[] := by
  obtain ⟨loading, hr⟩ : ∃ loading, run (load ⟨[], 0x21f000, none⟩ overhang)
      ⟨.ofProgram .empty, none, ()⟩ = (.error (.relocation (.reference "ext" 0 4)), loading) := by
    refine ⟨_, Prod.ext ?_ rfl⟩
    decide +kernel
  cases load_abandoned hr with
  | untouched he => exact he.elim
  | halted hi hrelocated hhost hhalted =>
    exact ⟨_, hr, hhost, hhalted.functions, hhalted.entryPoints, hhalted.data, hhalted.references⟩

end Loading

end Hunks
