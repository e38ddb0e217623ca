import Mathlib
import Hunks.Proofs.Host.Renamed
import Hunks.Proofs.Image.Renamed
import Hunks.Proofs.Load.Reload

namespace Hunks

open Hunks.Action (run InStep Parallel)

/-- Inputs that cannot be read count as one error if they are of one kind. -/
inductive LoadError.Alike : LoadError → LoadError → Prop
  | refl (e : LoadError) : Alike e e
  | parse {e e' : ParseError} : e.Alike e' → Alike (.parse e) (.parse e')

namespace Loading

variable {ρ α β : Type} {known : String → Prop} {own : Int → Prop} {loader : Loader ρ}
  {loading loading' : Loading ρ} {image image' : Image} {addresses : List Int} {buffers : List Bytes}

/-- The names of regions that a load looks for. -/
def soughtNames : List String := [Linker.defsName, Linker.refsName, "EXEC", "Custom"]

def Sought (name : String) : Prop :=
  name ∈ soughtNames

instance : DecidablePred Sought :=
  fun name ↦ inferInstanceAs (Decidable (name ∈ soughtNames))

/-- Loads of programs that differ in the names of owned regions. -/
def Renamed (own : Int → Prop) : Loading ρ → Loading ρ → Prop :=
  Both (Host.Renamed Sought own)

/-- Two results that differ in the image only, in which names and places of segments may differ. -/
def Alike (result result' : LoadResult) : Prop :=
  ∃ image, result' = { result with image } ∧ Option.Rel (Image.Renamed Sought) result.image image

theorem Alike.refl (result : LoadResult) : Alike result result := by
  refine ⟨result.image, rfl, ?_⟩
  cases result.image with
  | none => exact .none
  | some image => exact .some (.refl image)

theorem parallel_of_inStep {R : Loading ρ → Loading ρ → Prop} {x : Load ρ α}
    (hx : x.InStep R fun _ ↦ True) : Parallel R R LoadError.Alike Eq x x := by
  refine (Action.inStep_iff.mp hx).mono ?_ fun _ _ h ↦ h
  rintro e _ ⟨rfl, -⟩
  exact .refl e

theorem sought_systemNames : ∀ name ∈ Host.systemNames, Sought name := by
  decide

/-- What follows an attempt does not learn how it failed. -/
theorem attempt_parallel {R : Host → Host → Prop} {Q : α → β → Prop} {E : LoadError → LoadError → Prop}
    {x : Host.Access α} {y : Host.Access β} (h : Parallel R R (fun _ _ ↦ True) Q x y)
    (operation : Operation) (address : Int) :
    Parallel (Both R) (Both R) E (Option.Rel Q) (attempt (ρ := ρ) operation address x)
      (attempt operation address y) := by
  rintro s _ ⟨host, hst, rfl⟩
  have hend := h _ _ hst
  rw [run_attempt, run_attempt]
  dsimp only
  generalize run x s.host = p at hend ⊢
  generalize run y host = q at hend ⊢
  cases hend with
  | ok hab hst => exact .ok (.some hab) ⟨_, hst, rfl⟩
  | error he hst => exact .ok .none ⟨_, hst, rfl⟩

/-- A region for a segment is called alike, or by a name that no load looks for. -/
theorem segmentPlan_renamed {segment segment' : Segment} (hs : segment.Renamed known segment') (id : Nat)
    {address : Int} (ha : own address) (data : Bytes) :
    ∃ name, segmentPlan id segment' address data = { segmentPlan id segment address data with name } ∧
      Region.Named known own (segmentPlan id segment address data).address
        (segmentPlan id segment address data).name name := by
  obtain ⟨name, dataOffset, rfl, rfl | ⟨⟨hname, hk⟩, hname', hk'⟩⟩ := hs
  · exact ⟨_, rfl, Or.inl rfl⟩
  · refine ⟨name, ?_, Or.inr ⟨?_, ?_, hk'⟩⟩
    · simp only [segmentPlan, if_neg hname']
      split <;> rfl
    · simp only [segmentPlan]
      split <;> exact ha
    · simp only [segmentPlan, if_neg hname]
      split <;> exact hk

theorem createSegment_parallel {E : LoadError → LoadError → Prop} {segment segment' : Segment}
    (hs : segment.Renamed Sought segment') (id : Nat) {address : Int} (ha : own address) (data : Bytes) :
    Parallel (Renamed own) (Renamed own) E Eq (createSegment (ρ := ρ) id segment address data)
      (createSegment id segment' address data) := by
  obtain ⟨name, hplan, hn⟩ := segmentPlan_renamed hs id ha data
  obtain ⟨_, _, rfl, -⟩ := hs
  rw [createSegment, createSegment, hplan]
  split
  · exact .report _ _ _ _
  · exact .bind (attempt_parallel (fun s t h ↦ Host.createBlock_akin h hn) _ _) fun _ _ _ ↦ .pure rfl

theorem createSegments_parallel {E : LoadError → LoadError → Prop} (h : image.Renamed Sought image')
    (addresses : List Int) (buffers : List Bytes) :
    Parallel (Renamed (· ∈ addresses)) (Renamed (· ∈ addresses)) E Eq
      (eachSegment (ρ := ρ) image addresses buffers createSegment)
      (eachSegment image' addresses buffers createSegment) := by
  refine .foldl (zipIdx_forall₂ (zip_forall₂ h.2 _) 0) ?_ rfl
  rintro _ _ ⟨⟨segment, address, data⟩, id⟩ ⟨⟨segment', _, _⟩, _⟩ rfl ⟨⟨hs, hp, hm⟩, rfl⟩
  cases hp
  exact createSegment_parallel hs id (List.of_mem_zip hm).1 data

theorem eachSegment_eq (h : image.Renamed known image')
    {f : Nat → Segment → Int → Bytes → Load ρ Unit}
    (hf : ∀ id segment name dataOffset address data,
      f id { segment with name, dataOffset } address data = f id segment address data) :
    eachSegment image' addresses buffers f = eachSegment image addresses buffers f := by
  refine (Action.forEach_congr (zipIdx_forall₂ (zip_forall₂ h.2 _) 0) ?_).symm
  rintro ⟨⟨segment, address, data⟩, id⟩ ⟨⟨_, _, _⟩, _⟩ ⟨⟨⟨name, dataOffset, rfl, -⟩, hp, -⟩, rfl⟩
  cases hp
  exact (hf id segment name dataOffset address data).symm

theorem runLinker_eq (h : image.Renamed known image') (base imageEnd : Int) :
    runLinker (ρ := ρ) image' addresses buffers base imageEnd =
      runLinker image addresses buffers base imageEnd := by
  unfold runLinker
  rw [h.link_eq]

theorem imageEnd_eq (h : image.Renamed known image') (base : Int) :
    imageEnd image' base addresses = imageEnd image base addresses := by
  rw [imageEnd, imageEnd, h.sizes_eq]

/-- A link keeps the names of the regions of slots. -/
theorem storeNames_of_runLinker {base imageEnd : Int} {linker : Linker} (hrel : loading.host.Reliable)
    (ho : ∀ segment ∈ image.segments, ∀ reference ∈ segment.references,
      ∀ offset ∈ reference.offsets, 0 ≤ offset)
    (hr : run (runLinker image addresses buffers base imageEnd) loading = (.ok linker, loading')) :
    linker.defs.name = Linker.defsName ∧ linker.refs.name = Linker.refsName := by
  obtain ⟨-, hlink⟩ := runLinker_linking hrel hr
  obtain ⟨hnames, -, -⟩ := Linker.linked_of_run (by exact steady_table hrel base imageEnd) ho hlink
  rw [NameTable.foldl_bind] at hnames
  have hdefs : linker.defs = _ := congrArg NameTable.defs hnames
  have hrefs : linker.refs = _ := congrArg NameTable.refs hnames
  rw [hdefs, hrefs]
  exact ⟨SlotStore.name_behind .., SlotStore.name_behind ..⟩

theorem conclude_eq (h : image.Renamed known image') (answer : List Resident → List Diagnostic → α) :
    conclude loader image' addresses buffers answer = conclude loader image addresses buffers answer := by
  have hlabels : ∀ (entry : Option Int) (a : α),
      labelAll (ρ := ρ) image' addresses buffers entry a = labelAll image addresses buffers entry a := by
    intro entry a
    unfold labelAll
    rw [eachSegment_eq h fun _ _ _ _ _ _ ↦ rfl]
  unfold conclude
  rw [h.isProgram_eq]
  simp only [hlabels]

theorem complete_parallel (h : image.Renamed Sought image') (linker : Linker)
    (hdefs : Sought linker.defs.name) (hrefs : Sought linker.refs.name) :
    Parallel (Renamed own) (Renamed own) LoadError.Alike
      (fun result result' ↦ result.addresses = addresses ∧ Alike result result')
      (complete loader image addresses linker) (complete loader image' addresses linker) := by
  have hR : Host.Supple Sought (Host.Renamed Sought own) := Host.supple_renamed
  have hG : Host.Grown (fun _ _ ↦ True) (Host.Renamed Sought own) :=
    Host.grown_renamed sought_systemNames
  have hanswer : ∀ residents notes,
      Alike (answer image addresses linker residents notes) (answer image' addresses linker residents notes) := by
    intro residents notes
    refine ⟨some image', ?_, .some h⟩
    rw [answer, answer, h.1, h.isProgram_eq]
  rw [complete, complete, eachSegment_eq h fun _ _ _ _ _ _ ↦ rfl]
  refine .bind (parallel_of_inStep (.forEach fun _ _ ↦ writeBack_inStep hR _ _ _ _)) fun _ _ _ ↦ ?_
  refine .bind (parallel_of_inStep (materialize_inStep hR hG.toSeen loader hdefs)) fun _ _ _ ↦ ?_
  refine .bind (parallel_of_inStep (materialize_inStep hR hG.toSeen loader hrefs)) fun _ _ _ ↦ ?_
  refine .bind (parallel_of_inStep (.forEach fun _ _ ↦ setFunction_inStep hG.toSeen _ _)) fun _ _ _ ↦ ?_
  refine .bind (parallel_of_inStep (createExec_inStep hG loader)) fun _ _ _ ↦ ?_
  refine .bind (parallel_of_inStep (createCustom_inStep hG loader)) fun _ _ _ ↦ ?_
  rw [conclude_eq h]
  refine .of_run_eq ?_ (run_conclude loader image addresses _ _) (run_conclude loader image addresses _ _)
  refine .map (parallel_of_inStep (conclude_inStep hG.toSeen image addresses _ _ fun _ _ ↦ trivial)) ?_
  rintro found _ rfl
  exact ⟨rfl, hanswer _ _⟩

/-- From its link on a load goes on in one way whatever the segments are called. -/
theorem link_parallel (h : image.Renamed Sought image')
    (ho : ∀ segment ∈ image.segments, ∀ reference ∈ segment.references,
      ∀ offset ∈ reference.offsets, 0 ≤ offset) (base imageEnd : Int) :
    Parallel (Renamed own) (Renamed own) LoadError.Alike
      (fun result result' ↦ result.addresses = addresses ∧ Alike result result')
      (runLinker image addresses buffers base imageEnd >>= complete loader image addresses)
      (runLinker image' addresses buffers base imageEnd >>= complete loader image' addresses) := by
  have hdefs : Sought Linker.defsName := by decide
  have hrefs : Sought Linker.refsName := by decide
  intro first second hst
  have hrel : first.host.Reliable := by
    obtain ⟨_, h, -⟩ := hst
    exact h.1
  obtain ⟨first', second', hlast, ⟨e, -, hs, ht⟩ | ⟨linker, host, hs, ht⟩⟩ :=
    runLinker_cases Host.supple_renamed hdefs hrefs Host.binding_renamed ho addresses buffers base
      imageEnd hst
  · rw [runLinker_eq h, Action.run_bind_error hs, Action.run_bind_error ht]
    exact .error (.refl _) hlast
  · obtain ⟨hdefs, hrefs⟩ := storeNames_of_runLinker hrel ho hs
    rw [runLinker_eq h, Action.run_bind_ok hs, Action.run_bind_ok ht]
    exact complete_parallel h linker (by rw [hdefs]; decide) (by rw [hrefs]; decide) _ _ hlast

/-- Two loads come to one end but for names: both fail for one reason, or both succeed with one result
in which names of segments may differ. In memory only regions at the addresses of segments may have
other names. -/
inductive SameButNames : Except LoadError LoadResult × Loading ρ →
    Except LoadError LoadResult × Loading ρ → Prop
  | ok {result result' : LoadResult} {last : Loading ρ} {memory : Memory} : Alike result result' →
    last.host.program.memory.Renamed Sought (· ∈ result.addresses) memory →
    SameButNames (.ok result, last) (.ok result', last.withMemory memory)
  | error {e e' : LoadError} {last : Loading ρ} {memory : Memory} : LoadError.Alike e e' →
    last.host.program.memory.Renamed Sought (fun _ ↦ True) memory →
    SameButNames (.error e, last) (.error e', last.withMemory memory)

namespace SameButNames

theorem stopped {e e' : LoadError} (h : LoadError.Alike e e') (last : Loading ρ) :
    SameButNames (.error e, last) (.error e', last) :=
  .error h (.refl last.host.program.memory)

theorem finished {result result' : LoadResult} (h : Alike result result') (last : Loading ρ) :
    SameButNames (.ok result, last) (.ok result', last) :=
  .ok h (.refl last.host.program.memory)

theorem refl (p : Except LoadError LoadResult × Loading ρ) : SameButNames p p := by
  obtain ⟨e | result, last⟩ := p
  · exact stopped (.refl e) last
  · exact finished (.refl result) last

theorem of_parallel {x y : Load ρ LoadResult} (hrel : loading.host.Reliable)
    (h : Parallel (Renamed (· ∈ addresses)) (Renamed (· ∈ addresses)) LoadError.Alike
      (fun result result' ↦ result.addresses = addresses ∧ Alike result result') x y) :
    SameButNames (run x loading) (run y loading) := by
  have hend := h loading loading ⟨_, .refl hrel, rfl⟩
  generalize run x loading = p at hend ⊢
  generalize run y loading = q at hend ⊢
  cases hend with
  | ok hq hlast =>
    obtain ⟨rfl, hresult⟩ := hq
    obtain ⟨_, ⟨-, memory, rfl, hm⟩, rfl⟩ := hlast
    exact .ok hresult hm
  | error he hlast =>
    obtain ⟨_, ⟨-, memory, rfl, hm⟩, rfl⟩ := hlast
    exact .error he (hm.mono fun _ _ ↦ trivial)

end SameButNames

theorem loadFile_renamed {file file' : File} {data : Bytes} (hrel : loading.host.Reliable)
    (hread : (File.read data 0 none none).result = .ok file) (h : file.Renamed Sought file') :
    SameButNames (run (loadFile loader file) loading) (run (loadFile loader file') loading) := by
  have himages := Image.ofFile_parallel h () () rfl
  rw [loadFile_eq, loadFile_eq, Action.run_bind_ok (Action.run_info ..),
    Action.run_bind_ok (Action.run_info ..), Action.run_bind, Action.run_bind, Action.run_within,
    Action.run_within, Action.run_mapError, Action.run_mapError]
  generalize hbuilt : run (Image.ofFile file) () = p at himages ⊢
  generalize run (Image.ofFile file') () = q at himages ⊢
  cases himages with
  | error he _ => exact .stopped (.parse he) loading
  | @ok image image' _ _ himage _ =>
    obtain ⟨hunks, hi⟩ := Image.exists_isRead hread hbuilt
    dsimp only [Except.mapError, Except.map]
    rw [himage.layout_eq, himage.relocate_eq]
    -- which regions may have other names, the image says
    refine .of_parallel hrel (?_ : Parallel (Renamed (· ∈ image.layout loader.base 0)) _ _ _ _ _)
    refine .bind (parallel_of_inStep (InStep.within fun _ _ ↦ trivial)) ?_
    rintro ⟨buffers, _⟩ _ rfl
    refine .bind (createSegments_parallel himage _ _) fun _ _ _ ↦ ?_
    refine .bind (.report _ _ _ _) fun _ _ _ ↦ ?_
    rw [imageEnd_eq himage]
    exact link_parallel himage (fun _ hm _ hr _ ho ↦ hi.offset_nonneg hm hr ho) _ _

/-- Hunk names are only names, but for those that a load itself looks for. -/
theorem load_renamed {data data' : Bytes} (hrel : loading.host.Reliable)
    (h : Input.Renamed Sought data data') :
    SameButNames (run (load loader data) loading) (run (load loader data') loading) := by
  rcases h.spec_eq with rfl | ⟨-, spec, hs, hs', hspec⟩
  · exact .refl _
  · rw [load, load, hs, hs']
    cases spec with
    | none => exact .stopped (.refl _) loading
    | some spec =>
      cases spec with
      | kickstart base => exact absurd rfl (hspec base)
      | hunks =>
        have hfiles := h.decode
        rw [Except.mapError, Action.run_bind_ok (Action.run_ofExcept ..),
          Action.run_bind_ok (Action.run_ofExcept ..)]
        dsimp only
        rw [Action.run_bind, Action.run_bind, Action.run_within, Action.run_within, Action.run_mapError,
          Action.run_mapError]
        generalize hfile : run (File.decode none (.ofBytes data none)) 0 = p at hfiles ⊢
        generalize run (File.decode none (.ofBytes data' none)) 0 = q at hfiles ⊢
        cases hfiles with
        | error he _ => exact .stopped (.parse he) loading
        | @ok file file' _ _ hf _ =>
          dsimp only [Except.mapError, Except.map]
          rw [← hf.1]
          split
          · exact .finished (.refl _) loading
          · exact loadFile_renamed hrel (congrArg Prod.fst hfile) hf

/-- The start of a unit, up to the name of its hunk. -/
def headed (name : Nat) : Bytes :=
  (Bytes.long 999 ++ Bytes.long 0 ++ Bytes.long 1000 ++ Bytes.long 1 ++ Bytes.long name).toArray

def headedBlocks (name : String) : List Block :=
  [.plain ⟨some 999, some 0, some 8⟩ (.unit ""), .plain ⟨some 1000, some 8, some 20⟩ (.name name)]

/-- A unit with a named hunk that defines an absolute value. -/
def named (name : Nat) : Bytes :=
  headed name ++ (Bytes.long 1001 ++ Bytes.long 1 ++ Bytes.long 0 ++ Bytes.long 1007 ++
    Bytes.long 0x02000001 ++ Bytes.long 0x78000000 ++ Bytes.long 7 ++ Bytes.long 0 ++
    Bytes.long 1010).toArray

theorem named_renamed {name name' : Nat} {text text' : String} (h : Alias known text text')
    (hkind : (File.peekKind (.ofBytes (named name) none) 0).result = .ok .unit)
    (hread : (Block.decodeAll false (.ofBytes (headed name) none) 0).result = .ok (headedBlocks text))
    (hread' : (Block.decodeAll false (.ofBytes (headed name') none) 0).result =
      .ok (headedBlocks text')) : Input.Renamed known (named name) (named name') :=
  ⟨.unit, headed name, headed name', _, _, _, rfl, rfl, hkind, hread, hread',
    .cons (.plain rfl (.same _)) (.cons (.plain rfl (.name h)) .nil)⟩

theorem load_renamed_sample :
    let start : Loading Unit := ⟨.ofProgram .empty, none, ()⟩
    start.host.Reliable ∧ Input.Renamed Sought (named 0x41424344) (named 0x45464748) ∧
      ∃ result result' last memory, run (load sampleLoader (named 0x41424344)) start = (.ok result, last) ∧
        run (load sampleLoader (named 0x45464748)) start = (.ok result', last.withMemory memory) ∧
        Alike result result' ∧ last.host.program.memory.Renamed Sought (· ∈ result.addresses) memory := by
  intro start
  have hrel : start.host.Reliable := rfl
  have hnames : Alias Sought "ABCD" "EFGH" := Or.inr (by decide)
  have hdata : Input.Renamed Sought (named 0x41424344) (named 0x45464748) :=
    named_renamed hnames rfl rfl rfl
  have hloads : SameButNames (run (load sampleLoader (named 0x41424344)) start)
      (run (load sampleLoader (named 0x45464748)) start) := load_renamed hrel hdata
  have hok : (run (load sampleLoader (named 0x41424344)) start).1.isOk := by decide +kernel
  generalize run (load sampleLoader (named 0x41424344)) start = p at hloads hok ⊢
  generalize run (load sampleLoader (named 0x45464748)) start = q at hloads ⊢
  refine ⟨hrel, hdata, ?_⟩
  cases hloads with
  | ok hresult hm => exact ⟨_, _, _, _, rfl, rfl, hresult, hm⟩
  | error _ _ => cases hok

/-- A hunk with the name of the region of absolute values is taken for that region. -/
theorem hunk_taken_for_slots :
    let start : Loading Unit := ⟨.ofProgram .empty, none, ()⟩
    Input.Renamed (fun _ ↦ False) (named 0x44454653) (named 0x41424344) ∧
      (load sampleLoader (named 0x44454653) start).result.map (fun result ↦ result.linkage.map
        fun linkage ↦ (linkage.defs.base, linkage.defs.size)) = .ok (some (0x21f000, 8)) ∧
      (load sampleLoader (named 0x41424344) start).result.map (fun result ↦ result.linkage.map
        fun linkage ↦ (linkage.defs.base, linkage.defs.size)) = .ok (some (0x22f000, 4)) := by
  have hnames : Alias (fun _ ↦ False) "DEFS" "ABCD" := Or.inr (by decide)
  exact ⟨named_renamed hnames rfl rfl rfl, by decide +kernel, by decide +kernel⟩

end Loading

end Hunks
