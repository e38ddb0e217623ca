import Mathlib
import Hunks.Proofs.Link.Again
import Hunks.Proofs.Load.Creation
import Hunks.Proofs.Load.Growth
import Hunks.Proofs.Load.System

namespace Hunks

open Hunks.Action (run Preserves)

/-- The answer of a load that found all of its input in place: what an earlier one gave back, with no
slot minted. -/
structure LoadResult.Recalls (again result : LoadResult) : Prop where
  kind : again.kind = result.kind
  image : again.image = result.image
  addresses : again.addresses = result.addresses
  buffers : again.buffers = result.buffers
  residents : again.residents = result.residents
  entry : again.entry = result.entry
  slots : again.slots = []

theorem LoadResult.recalls_of_linkage {result : LoadResult} (h : result.linkage = none) :
    result.Recalls result := by
  refine ⟨rfl, rfl, rfl, rfl, rfl, rfl, ?_⟩
  rw [slots, defSlots, refSlots, h]
  rfl

namespace Loading

variable {ρ α : Type} {loading first : Loading ρ} {loader : Loader ρ} {program : Program} {image : Image}
  {base : Int} {contents buffers : List Bytes} {store : SlotStore} {registry : Option Registry}
  {lookups : ρ} {data : Bytes} {result : LoadResult}

/-- A loop over segments of which none changes the state. -/
theorem eachSegment_idle {addresses : List Int} {f : Nat → Segment → Int → Bytes → Load ρ Unit}
    (h : ∀ (id : Nat) (segment : Segment) (address : Int) (data : Bytes),
      image.segments[id]? = some segment → addresses[id]? = some address → buffers[id]? = some data →
      run (f id segment address data) loading = (.ok (), loading)) :
    run (eachSegment image addresses buffers f) loading = (.ok (), loading) := by
  refine Action.run_forEach_idle ?_
  rintro ⟨⟨segment, address, data⟩, id⟩ hm
  have hzip := List.mk_mem_zipIdx_iff_getElem?.mp hm
  rw [List.getElem?_zip_eq_some, List.getElem?_zip_eq_some] at hzip
  exact h id segment address data hzip.1 hzip.2.1 hzip.2.2

/-- Where segments are placed no others can be created. -/
theorem createSegments_idle (hp : image.Placed base contents program.memory) (hf : image.Filled contents)
    (hb : image.Filled buffers) (h : loading.Extends program) :
    run (eachSegment image (image.layout base 0) buffers createSegment) loading = (.ok (), loading) := by
  refine eachSegment_idle fun id segment address data hs ha hd ↦ ?_
  rw [createSegment]
  split <;> rename_i hzero
  · rfl
  · have hid : id < contents.length := by
      rw [hf.length]
      exact (List.getElem?_eq_some_iff.mp hs).1
    have hmem := (hp.mem_iff _).mpr ⟨id, (Image.places_iff hs ha (List.getElem?_eq_getElem hid)).mpr
      ⟨hzero, rfl⟩⟩
    have hoccupied : program.memory.Occupies (segment.region id address data) := by
      refine ⟨_, hmem, ?_⟩
      simp only [Region.Apart, Segment.stop_region, Segment.start_region]
      omega
    obtain ⟨e, hc⟩ := Memory.create_occupied
      (Segment.plannedSize_segmentPlan (hb.size id segment data hs hd)) (h.memory.occupies hoccupied)
    rw [Action.run_bind, run_createBlock h.reliable, hc]
    rfl

/-- Segments are written back to where their bytes are. -/
theorem writeBacks_idle (hp : image.Placed base contents program.memory) (hf : image.Filled contents)
    (h : loading.Extends program) :
    run (eachSegment image (image.layout base 0) contents writeBack) loading = (.ok (), loading) := by
  refine eachSegment_idle fun id segment address data hs ha hd ↦ ?_
  have hsize := hf.size id segment data hs hd
  rw [writeBack]
  split
  · rfl
  · split <;> rename_i hk
    · rfl
    · rw [run_annotate, Host.run_setBytes h.reliable]
      cases hw : loading.host.program.memory.write address data with
      | error e => rfl
      | ok memory =>
        have hsame : memory = loading.host.program.memory := by
          by_cases hzero : segment.size = 0
          · exact h.sound.write_nil (hsize.trans hzero) hw
          · have hmem := (hp.mem_iff _).mpr ⟨id, (Image.places_iff hs ha hd).mpr ⟨hzero, rfl⟩⟩
            refine h.memory.write_again h.sound hp.sound hmem (Segment.data_region id address hk hsize) ?_
            rwa [Segment.start_region]
        rw [hsame]
        rfl

/-- There is nothing to do for slots that earlier loads took. -/
theorem materialize_nameless (h : store.Nameless) :
    run (materialize loader store) loading = (.ok (), loading) := by
  rw [materialize, if_neg h.not_any]
  rfl

/-- Only the host of a load has changed. -/
def Aside (start loading : Loading ρ) : Prop :=
  ∃ host, loading = { start with host }

section Aside

variable (start : Loading ρ)

theorem attempt_aside (operation : Operation) (address : Int) (x : Host.Access α) :
    (attempt operation address x).Preserves (Aside start) := by
  rintro _ ⟨host, rfl⟩
  rw [run_attempt]
  exact ⟨_, rfl⟩

theorem annotate_aside (operation : Operation) (address : Int) (x : Host.Access α) :
    (annotate operation address x).Preserves (Aside start) :=
  .bind (attempt_aside start _ _ _) fun _ ↦ .pure _

theorem createSegment_aside (id : Nat) (segment : Segment) (address : Int) (data : Bytes) :
    (createSegment id segment address data).Preserves (Aside start) := by
  rw [createSegment]
  split
  · exact .report _ _
  · exact .bind (attempt_aside start _ _ _) fun _ ↦ .pure _

theorem writeBack_aside (id : Nat) (segment : Segment) (address : Int) (data : Bytes) :
    (writeBack id segment address data).Preserves (Aside start) := by
  rw [writeBack]
  split
  · exact .pure _
  · split
    · exact .report _ _
    · exact annotate_aside start _ _ _

theorem slotRegion_aside (store : SlotStore) : (slotRegion store).Preserves (Aside start) := by
  refine .bind (attempt_aside start _ _ _) fun found ↦ ?_
  split
  · rw [createSlots]
    split
    · exact attempt_aside start _ _ _
    · exact attempt_aside start _ _ _
  · split
    · refine .bind (attempt_aside start _ _ _) fun tail ↦ ?_
      split
      · exact .pure _
      · split
        · exact .bind (attempt_aside start _ _ _) fun _ ↦ attempt_aside start _ _ _
        · exact attempt_aside start _ _ _
    · exact .pure _

theorem fillSlot_aside (loader : Loader ρ) (store : SlotStore) (slot : Slot) (i : Nat) :
    (fillSlot loader store slot i).Preserves (Aside start) := by
  rw [fillSlot]
  split
  · dsimp only
    split
    · exact .bind (annotate_aside start _ _ _) fun _ ↦ annotate_aside start _ _ _
    · exact annotate_aside start _ _ _
  · exact .pure _

theorem materialize_aside (loader : Loader ρ) (store : SlotStore) :
    (materialize loader store).Preserves (Aside start) := by
  rw [materialize]
  split
  · refine .bind (slotRegion_aside start store) fun found ↦ ?_
    split
    · exact .bind (.report _ _) fun _ ↦ .forEach fun _ _ ↦ fillSlot_aside start loader store _ _
    · exact .pure _
  · exact .pure _

end Aside

/-- The linker of a load at its start, behind the slots of earlier loads. -/
def linking (loading : Loading ρ) (buffers : List Bytes) (base imageEnd : Int) : Linker :=
  { Linker.start loading.host buffers base imageEnd with
    defs := (loading.table base imageEnd).defs
    refs := (loading.table base imageEnd).refs }

theorem run_runLinker_reserved (hrel : loading.host.Reliable) (addresses : List Int) (imageEnd : Int) :
    run (runLinker image addresses buffers base imageEnd) loading =
      match run (Linker.link image addresses imageEnd) (loading.linking buffers base imageEnd) with
      | (.ok (), linker) => (.ok linker, { loading with host := linker.host })
      | (.error e, linker) => (.error (.ofLink e), { loading with host := linker.host }) :=
  run_runLinker (run_reserveSlots hrel _) (run_reserveSlots hrel _)

theorem runLinker_linking {created linked : Loading ρ} {linker : Linker} {addresses : List Int}
    {imageEnd : Int} (hrel : created.host.Reliable)
    (hr : run (runLinker image addresses buffers base imageEnd) created = (.ok linker, linked)) :
    linked = { created with host := linker.host } ∧
      run (Linker.link image addresses imageEnd) (created.linking buffers base imageEnd) =
        (.ok (), linker) := by
  rw [run_runLinker_reserved hrel] at hr
  rcases hlink : run (Linker.link image addresses imageEnd) (created.linking buffers base imageEnd) with
    ⟨e | ⟨⟩, last⟩
  · rw [hlink] at hr
    cases hr
  · rw [hlink] at hr
    cases hr
    exact ⟨rfl, rfl⟩

/-- A link on a host that knows all names of an earlier one changes nothing in a load, and takes no
slots. -/
theorem runLinker_again {created linked : Loading ρ} {linker : Linker} {addresses : List Int}
    {imageEnd : Int} (hrel : created.host.Reliable)
    (hr : run (runLinker image addresses buffers base imageEnd) created = (.ok linker, linked))
    (hrel' : loading.host.Reliable)
    (hlabels : ∀ name address, linker.host.program.address? name = some address →
      loading.host.program.address? name = some address) :
    ∃ again, run (runLinker image addresses buffers base imageEnd) loading = (.ok again, loading) ∧
      again.buffers = linker.buffers ∧ again.entryPoints = linker.entryPoints ∧
      again.defs.Nameless ∧ again.refs.Nameless := by
  obtain ⟨-, hlink⟩ := runLinker_linking hrel hr
  have hsteady : (created.linking buffers base imageEnd).names.Steady := steady_table hrel base imageEnd
  have hsteady' : (loading.linking buffers base imageEnd).names.Steady := steady_table hrel' base imageEnd
  have hagain := Linker.link_known hsteady hlink hsteady' hlabels rfl ⟨rfl, fun _ _ ↦ Or.inl rfl⟩
  obtain ⟨hdefs, hrefs⟩ := nameless_table loading base imageEnd
  refine ⟨{ loading.linking buffers base imageEnd with
    entryPoints := linker.entryPoints, buffers := linker.buffers }, ?_, rfl, rfl, hdefs, hrefs⟩
  rw [run_runLinker_reserved hrel', hagain]
  rfl

/-- The load of a file whose parts are known. -/
theorem run_loadFile {file : File} {image : Image} {relocated : List Bytes} {loading : Loading ρ}
    (hbuilt : run (Image.ofFile file) () = (.ok image, ()))
    (hrelocated : run (image.relocate (image.layout loader.base 0)) () = (.ok relocated, ())) :
    run (loadFile loader file) loading = run (do
      eachSegment image (image.layout loader.base 0) relocated createSegment
      let linker ← runLinker image (image.layout loader.base 0) relocated loader.base
        (imageEnd image loader.base (image.layout loader.base 0))
      complete loader image (image.layout loader.base 0) linker) loading := by
  rw [loadFile_eq, Action.run_bind_ok (Action.run_info _ _),
    Action.run_bind_ok (Action.run_within_eq_ok.mpr ⟨Action.run_mapError_eq_ok.mpr hbuilt, rfl⟩)]
  dsimp only
  rw [Action.run_bind_ok (Action.run_within_eq_ok.mpr ⟨Action.run_mapError_eq_ok.mpr hrelocated, rfl⟩)]
  dsimp only
  rw [Action.run_bind, Action.run_bind]
  rcases run (eachSegment image (image.layout loader.base 0) relocated createSegment) loading with
    ⟨_ | _, _⟩
  · rfl
  · rfl

/-- Up to the creation of slots only the host changes. -/
theorem Stages.aside {file : File} {image : Image} {relocated : List Bytes} {linker : Linker}
    {start created linked written defined referred : Loading ρ} {Q : Report → Prop}
    (h : Stages Q loader file image relocated linker start created linked written defined referred first
      result) (hlinked : linked = { created with host := linker.host }) : Aside start referred := by
  have hcreate : Aside start created :=
    Preserves.of_run (.forEach fun _ _ ↦ createSegment_aside _ _ _ _ _) h.creation.1 ⟨_, rfl⟩
  have hlink : Aside start linked := by
    obtain ⟨host, rfl⟩ := hcreate
    exact ⟨_, hlinked⟩
  have hwrite : Aside start written :=
    Preserves.of_run (.forEach fun _ _ ↦ writeBack_aside _ _ _ _ _) h.writing hlink
  exact Preserves.of_run (materialize_aside _ _ _) h.reference.1
    (Preserves.of_run (materialize_aside _ _ _) h.definition.1 hwrite)

theorem recalls_answer {image : Image} {addresses : List Int} {linker linker' : Linker}
    {residents : List Resident} {notes : List Diagnostic} (hbuffers : linker'.buffers = linker.buffers)
    (hdefs : linker'.defs.Nameless) (hrefs : linker'.refs.Nameless) :
    (answer image addresses linker' residents notes).Recalls
      (answer image addresses linker residents notes) where
  kind := rfl
  image := rfl
  addresses := rfl
  buffers := congrArg Array.toList hbuffers
  residents := rfl
  entry := rfl
  slots := List.append_eq_nil_iff.mpr
    ⟨SlotStore.minted_eq_nil hdefs.not_any, SlotStore.minted_eq_nil hrefs.not_any⟩

theorem Stages.again {file : File} {image : Image} {relocated : List Bytes} {linker : Linker}
    {created linked written defined referred : Loading ρ} {hunks : List Hunk} {Q : Report → Prop}
    (h : Stages Q loader file image relocated linker ⟨.ofProgram .empty, registry, lookups⟩ created
      linked written defined referred first result) (hi : image.IsRead data hunks) :
    ∃ again last, run (loadFile loader file) ⟨first.host, registry, lookups⟩ =
        (.ok again, { first with host := .ofProgram last }) ∧
      again.Recalls result ∧ first.host.program.Repeats last := by
  obtain ⟨hcreated, hreferred, hfilled, hpatched, memory, hplaced, hextends⟩ := h.kept rfl hi
  obtain ⟨-, haddresses, hbuffers⟩ := h.answer
  rw [hbuffers] at hplaced hpatched
  have hlinked : image.Filled linker.buffers.toList := hpatched.filled hfilled
  obtain ⟨host, rfl⟩ := h.aside (runLinker_linking hcreated h.linkage).1
  have hhost : host = .ofProgram host.program := Host.Reliable.eq hreferred
  have hfinish := h.finishing
  rw [hhost] at hfinish
  have hsecond : Loading.Extends { linker.host.program with memory } ⟨first.host, registry, lookups⟩ := hextends
  obtain ⟨linker', hlink, hbuffers', hpoints, hdefs, hrefs⟩ :=
    runLinker_again hcreated h.linkage hsecond.reliable hextends.labels
  obtain ⟨residents, notes, last, rfl, hrun, hlast⟩ :=
    finish_again hextends.reliable hfinish linker' hbuffers' hpoints
  have hwrite := writeBacks_idle hplaced hlinked hsecond
  rw [← hbuffers'] at hwrite
  refine ⟨Loading.answer image (image.layout loader.base 0) linker' residents notes, last, ?_,
    recalls_answer hbuffers' hdefs hrefs, hlast⟩
  rw [run_loadFile h.built h.relocation,
    Action.run_bind_ok (createSegments_idle hplaced hlinked hfilled hsecond), Action.run_bind_ok hlink,
    complete, Action.run_bind_ok hwrite, Action.run_bind_ok (materialize_nameless hdefs),
    Action.run_bind_ok (materialize_nameless hrefs)]
  exact hrun

/-- What a load does goes by the input: it is the load of a ROM, nothing, or the load of a file. -/
theorem run_load_eq {loading : Loading ρ} (hr : run (load loader data) loading = (.ok result, first)) :
    (∃ base, ∀ loading, run (load loader data) loading = run (loadKickstart loader data base) loading) ∨
      (∃ kind, ∀ loading, run (load loader data) loading = (.ok (emptyResult kind), loading)) ∨
      ∃ file, (File.read data 0 none none).result = .ok file ∧
        ∀ loading, run (load loader data) loading = run (loadFile loader file) loading := by
  obtain ⟨spec, _, hspec, hrest⟩ := Action.run_bind_eq_ok.mp hr
  rw [Action.run_ofExcept, Prod.mk.injEq] at hspec
  obtain ⟨hspec, rfl⟩ := hspec
  match spec with
  | none => cases hrest
  | some (.kickstart base) =>
    refine Or.inl ⟨base, fun loading ↦ ?_⟩
    rw [load, hspec]
    exact Action.run_bind_ok (Action.run_ofExcept _ _)
  | some .hunks =>
    obtain ⟨⟨file, pos⟩, _, hdecode, -⟩ := Action.run_bind_eq_ok.mp hrest
    have hread := (Action.run_within_eq_ok.mp hdecode).1
    have hload : ∀ loading : Loading ρ, run (load loader data) loading =
        run (if file.kind = .library then do
            Action.info s!"library file with {file.blocks.length} blocks, nothing to load"
            return emptyResult file.kind
          else loadFile loader file) loading := by
      intro loading
      rw [load, hspec]
      refine (Action.run_bind_ok (Action.run_ofExcept _ _)).trans ?_
      exact Action.run_bind_ok (Action.run_within_eq_ok.mpr ⟨hread, rfl⟩)
    refine Or.inr ?_
    by_cases hkind : file.kind = .library
    · refine Or.inl ⟨file.kind, fun loading ↦ ?_⟩
      rw [hload, if_pos hkind]
      rfl
    · refine Or.inr ⟨file, congrArg Prod.fst (Action.run_mapError_eq_ok.mp hread), fun loading ↦ ?_⟩
      rw [hload, if_neg hkind]

/-- A load of what is loaded already gives the same answer and mints no slots. All that it adds to the
program are references that the program has. -/
theorem load_repeats (hr : run (load loader data) ⟨.ofProgram .empty, registry, lookups⟩ = (.ok result, first)) :
    ∃ again last, run (load loader data) ⟨first.host, registry, lookups⟩ =
        (.ok again, { first with host := .ofProgram last }) ∧
      again.Recalls result ∧ first.host.program.Repeats last := by
  obtain ⟨base, hload⟩ | ⟨kind, hload⟩ | ⟨file, hread, hload⟩ := run_load_eq hr
  · rw [hload] at hr
    obtain ⟨hlinkage, last, hrun, hlast⟩ := loadKickstart_again hr
    exact ⟨result, last, (hload _).trans hrun, LoadResult.recalls_of_linkage hlinkage, hlast⟩
  · rw [hload] at hr
    cases hr
    exact ⟨emptyResult kind, .empty, hload _, LoadResult.recalls_of_linkage rfl, .refl _⟩
  · rw [hload] at hr
    obtain ⟨image, relocated, linker, created, linked, written, defined, referred, hstages⟩ :=
      loadFile_stages (.of_run hr)
    obtain ⟨hunks, hhunks, -, -⟩ := Image.ofFile_builtOf hstages.built
    obtain ⟨again, last, hrun, hagain, hlast⟩ := hstages.again
      ⟨file, hread, congrArg Prod.fst hhunks, congrArg Prod.fst hstages.built⟩
    exact ⟨again, last, (hload _).trans hrun, hagain, hlast⟩

theorem load_repeats_sample : ∃ result first again last,
    run (load sampleLoader sample) ⟨.ofProgram .empty, none, ()⟩ = (.ok result, first) ∧
      result.slots.length = 2 ∧
      run (load sampleLoader sample) ⟨first.host, none, ()⟩ =
        (.ok again, { first with host := .ofProgram last }) ∧
      again.buffers = result.buffers ∧ again.slots = [] ∧
      last.memory = first.host.program.memory ∧ last.labels = first.host.program.labels := by
  have hslots : (load sampleLoader sample ⟨.ofProgram .empty, none, ()⟩).result.map
      (fun result ↦ result.slots.length) = .ok 2 := by decide +kernel
  cases hresult : (load sampleLoader sample ⟨.ofProgram .empty, none, ()⟩).result with
  | error e =>
    rw [hresult] at hslots
    cases hslots
  | ok result =>
    rw [hresult] at hslots
    obtain ⟨again, last, hrun, hagain, more, rfl, -⟩ := load_repeats (Action.result_eq hresult)
    exact ⟨result, _, again, _, Action.result_eq hresult, Except.ok.inj hslots, hrun, hagain.buffers,
      hagain.slots, rfl, rfl⟩

end Loading

end Hunks
