import Mathlib
import Hunks.Proofs.Link.Errors
import Hunks.Proofs.Load.Parts
import Hunks.Proofs.Load.Segments
import Hunks.Proofs.Resident

namespace Hunks

open Hunks.Action (run Abreast Confined Coupled InStep Parallel Relates Tandem)
open Resident (Scanner Sources)

/-- What an input may make a load fail with. -/
def LoadError.OfInput : LoadError → Prop
  | .parse _ => True
  | .relocation e => e.OfInput
  | .imageBase _ | .host _ | .access _ | .resolve _ => False

/-- An error of the resolver that ends the scan of a load. -/
def Loader.Escapes {ρ : Type} (loader : Loader ρ) : ResolveError → Prop :=
  Sources.Escapes ⟨some loader.types, loader.resolver⟩

theorem Loader.Escapes.isSome {ρ : Type} {loader : Loader ρ} {e : ResolveError} (h : loader.Escapes e) :
    loader.resolver.isSome :=
  Sources.Escapes.isSome h

theorem Loader.not_escapes {ρ : Type} {loader : Loader ρ} (h : loader.resolver = none)
    (e : ResolveError) : ¬ loader.Escapes e := by
  intro he
  have hsome := he.isSome
  rw [h] at hsome
  cases hsome

namespace Loading

variable {ρ α β : Type} {P : Host → Prop} {R S : Host → Host → Prop} {E : LoadError → Prop}
  {D : LinkError → Prop} {F : AccessError → AccessError → Prop} {known : String → Prop}
  {loader : Loader ρ} {loading : Loading ρ}

/-- The host of a load has a property. -/
def Has (P : Host → Prop) (loading : Loading ρ) : Prop :=
  P loading.host

/-- Two loads on hosts in a relation, with nothing else that differs. -/
def Both (R : Host → Host → Prop) (first second : Loading ρ) : Prop :=
  ∃ host, R first.host host ∧ second = { first with host }

theorem Both.mono (hRS : ∀ s t, R s t → S s t) (first second : Loading ρ)
    (h : Both R first second) : Both S first second := by
  obtain ⟨host, h, rfl⟩ := h
  exact ⟨host, hRS _ _ h, rfl⟩

theorem confined_of_inStep {x : Load ρ α} (hx : x.InStep (Both (Host.Same P)) E) :
    x.Confined (Has P) E :=
  hx.confined (fun loading h ↦ ⟨loading.host, ⟨rfl, h⟩, rfl⟩) fun _ _ ⟨_, h, _⟩ ↦ h.2

/-- Only whether an attempt fails makes a difference. -/
theorem attempt_inStep {x : Host.Access α} (hx : x.Abreast R F) (operation : Operation)
    (address : Int) : (attempt (ρ := ρ) operation address x).InStep (Both R) E := by
  rintro s _ ⟨host, h, rfl⟩
  have hend := hx _ _ h
  rw [run_attempt, run_attempt]
  dsimp only
  generalize run x s.host = p at hend ⊢
  generalize run x host = q at hend ⊢
  cases hend with
  | ok hab hst =>
    subst hab
    exact .ok rfl ⟨_, hst, rfl⟩
  | error he hst => exact .ok rfl ⟨_, hst, rfl⟩

theorem annotate_inStep {x : Host.Access α} (hx : x.Relates R) (operation : Operation)
    (address : Int) : (annotate (ρ := ρ) operation address x).InStep (Both R) E := by
  rintro s _ ⟨host, h, rfl⟩
  rw [run_annotate, run_annotate]
  exact .ok rfl ⟨_, hx _ _ h, rfl⟩

section Notes

variable (hN : Host.Seen F R)
include hN

theorem setFunction_inStep (address : Int) (name : String) :
    (setFunction (ρ := ρ) address name).InStep (Both R) E :=
  .bind (annotate_inStep (hN.declareFunction _ _ _) _ _) fun _ ↦
    annotate_inStep (hN.addEntryPoint _) _ _

theorem labelSymbols_inStep (segment : Segment) (address : Int) :
    (labelSymbols (ρ := ρ) segment address).InStep (Both R) E :=
  .forEach fun symbol _ ↦ annotate_inStep
    (hN.createLabel (address + symbol.value) symbol.name Label.imported) _ _

theorem fillSlot_inStep (loader : Loader ρ) {store : SlotStore} {slot : Slot} {i : Nat}
    (hset : slot.name.isSome → store.initialized → Relates R
      (Host.setBytes (store.addressOf i) (Bytes.long (slot.value.getD 0)).toArray)) :
    (fillSlot loader store slot i).InStep (Both R) E := by
  have hdata : (annotate (ρ := ρ) .createData (store.addressOf i) (Host.createData
      (store.addressOf i) (loader.types.get? "dword"))).InStep (Both R) E :=
    annotate_inStep (hN.createData _ _) _ _
  rw [fillSlot]
  split <;> rename_i hname
  · dsimp only
    split <;> rename_i hinit
    · exact .bind (annotate_inStep (hset hname hinit) _ _) fun _ ↦ hdata
    · exact hdata
  · exact .pure _

/-- A scan that the host stops does not stop the load. -/
theorem scanResidents_inStep (start : Int)
    (hE : ∀ e, loader.Escapes e → E (.resolve e)) :
    (scanResidents loader start).InStep (Both R) E := by
  let sources : Sources ρ := ⟨some loader.types, loader.resolver⟩
  have hscan : (Scanner.scan sources start).Abreast (Scanner.Both R) (sources.Blames F) :=
    Scanner.scan_abreast hN start
  -- a scan that fails hands its error on as a value, and of the host two errors may differ
  let Found (p q : Except Resident.ScanError (List Resident) × List Diagnostic) : Prop :=
    p.2 = q.2 ∧ (p.1 = q.1 ∧ (∃ residents, p.1 = .ok residents) ∨
      ∃ e e', p.1 = .error e ∧ q.1 = .error e' ∧ sources.Blames F e e')
  have hfocus : Parallel (Both R) (Both R) (Action.Shared E) Found
      (Action.focus scanner afterScan (do
        let result ← (Scanner.scan sources start).attempt
        return (result, (← get).diagnostics.toList)) : Load ρ _)
      (Action.focus scanner afterScan (do
        let result ← (Scanner.scan sources start).attempt
        return (result, (← get).diagnostics.toList)) : Load ρ _) := by
    refine .focus (R := Scanner.Both R) (.attempt hscan ?_ ?_) ?_ ?_
    · rintro residents _ rfl s _ ⟨host, h, rfl⟩
      exact .ok ⟨rfl, Or.inl ⟨rfl, _, rfl⟩⟩ ⟨host, h, rfl⟩
    · rintro e e' he s _ ⟨host, h, rfl⟩
      exact .ok ⟨rfl, Or.inr ⟨e, e', rfl, rfl, he⟩⟩ ⟨host, h, rfl⟩
    · rintro s _ ⟨host, h, rfl⟩
      exact ⟨host, h, rfl⟩
    · rintro a _ s _ ⟨host, h, rfl⟩ ⟨_, -, rfl⟩
      exact ⟨host, h, rfl⟩
  refine Action.inStep_iff.mpr (hfocus.bind ?_)
  rintro ⟨result, diagnostics⟩ ⟨_, _⟩ ⟨rfl, ⟨rfl, residents, rfl⟩ | ⟨_, _, rfl, rfl, he⟩⟩
  · exact .pure rfl
  · cases he with
    | host _ => exact .bind (.report _ _ _ _) fun _ _ _ ↦ .pure rfl
    | resolve hr => exact .throw ⟨rfl, hE _ hr⟩

theorem labelAll_inStep (image : Image) (addresses : List Int) (buffers : List Bytes)
    (entry : Option Int) (a : α) :
    (labelAll (ρ := ρ) image addresses buffers entry a).InStep (Both R) E := by
  have hlabels : Action.InStep (σ := Loading ρ) (Both R) E (do
      eachSegment image addresses buffers fun _ segment address _ ↦ labelSymbols segment address
      return a) :=
    .bind (.forEach fun _ _ ↦ labelSymbols_inStep hN _ _) fun _ ↦ .pure _
  cases entry with
  | none => exact hlabels
  | some address => exact .bind (setFunction_inStep hN _ _) fun _ ↦ hlabels

theorem conclude_inStep (image : Image) (addresses : List Int) (buffers : List Bytes)
    (answer : List Resident → List Diagnostic → α)
    (hE : ∀ e, loader.Escapes e → E (.resolve e)) :
    (conclude loader image addresses buffers answer).InStep (Both R) E := by
  unfold conclude
  cases addresses.head? with
  | none => exact .bind (.pure _) fun _ ↦ labelAll_inStep hN image addresses buffers _ _
  | some address =>
    exact .bind (scanResidents_inStep hN address hE) fun _ ↦
      labelAll_inStep hN image addresses buffers _ _

end Notes

section Growing

variable (hG : Host.Grown F R)
include hG

theorem getBlock_inStep {name : String} (hm : name ∈ Host.systemNames) :
    (onHost (ρ := ρ) (Host.getBlock name)).InStep (Both R) E := by
  refine .focus (.mapError (E := fun _ ↦ False) (hG.getBlock name hm) fun _ he ↦ he.elim) ?_ ?_
  · rintro s _ ⟨host, h, rfl⟩
    exact h
  · rintro a b s _ hab ⟨host, -, rfl⟩
    exact ⟨b, hab, rfl⟩

theorem createExec_inStep (loader : Loader ρ) : (createExec loader).InStep (Both R) E := by
  refine .bind (getBlock_inStep hG (by decide)) fun found ↦ ?_
  split
  · refine .bind (attempt_inStep (hG.create _ 1 rfl rfl) _ _) fun _ ↦ ?_
    exact annotate_inStep (hG.createData _ _) _ _
  · exact .pure _

theorem createCustom_inStep (loader : Loader ρ) : (createCustom loader).InStep (Both R) E := by
  refine .bind (getBlock_inStep hG (by decide)) fun found ↦ ?_
  split
  · refine .bind (.report _ _) fun _ ↦ .bind (attempt_inStep (hG.create _ 128 rfl rfl) _ _) fun _ ↦ ?_
    exact .bind (annotate_inStep (hG.createData _ _) _ _) fun _ ↦
      annotate_inStep (hG.createLabel _ _ _) _ _
  · exact .pure _

theorem finish_inStep (image : Image) (addresses : List Int) (linker : Linker)
    (hE : ∀ e, loader.Escapes e → E (.resolve e)) :
    (finish loader image addresses linker).InStep (Both R) E :=
  .bind (.forEach fun _ _ ↦ setFunction_inStep hG.toSeen _ _) fun _ ↦
    .bind (createExec_inStep hG loader) fun _ ↦ .bind (createCustom_inStep hG loader) fun _ ↦
      conclude_inStep hG.toSeen image addresses _ _ hE

end Growing

section Memory

variable (hR : Host.Supple known R)
include hR

theorem createBlock_inStep (plan : Region.Plan) : (createBlock (ρ := ρ) plan).InStep (Both R) E :=
  attempt_inStep (hR.createBlock plan) _ _

theorem createSegment_inStep (id : Nat) (segment : Segment) (address : Int) (data : Bytes) :
    (createSegment (ρ := ρ) id segment address data).InStep (Both R) E := by
  rw [createSegment]
  split
  · exact .report _ _
  · exact .bind (createBlock_inStep hR _) fun _ ↦ .pure _

theorem writeBack_inStep (id : Nat) (segment : Segment) (address : Int) (data : Bytes) :
    (writeBack (ρ := ρ) id segment address data).InStep (Both R) E := by
  rw [writeBack]
  split
  · exact .pure _
  · split
    · exact .report _ _
    · exact annotate_inStep (hR.setBytes _ _) _ _

theorem reserveSlots_inStep {store : SlotStore} (hk : known store.name) :
    (reserveSlots (ρ := ρ) store).InStep (Both R) E := by
  refine .bind (attempt_inStep (hR.getBlock _ hk) _ _) fun found ↦ ?_
  split
  · exact .pure _
  · exact .pure _

theorem createSlots_inStep (store : SlotStore) : (createSlots (ρ := ρ) store).InStep (Both R) E := by
  rw [createSlots]
  split
  · exact createBlock_inStep hR _
  · exact createBlock_inStep hR _

theorem extendSlots_inStep (store : SlotStore) (region : Region) :
    (extendSlots (ρ := ρ) store region).InStep (Both R) E := by
  refine .bind (createBlock_inStep hR _) fun tail ↦ ?_
  cases tail with
  | none => exact .pure _
  | some tail =>
    have hjoin : ∀ tail, (attempt (ρ := ρ) .join region.start (Host.join (some region) tail)).InStep
        (Both R) E :=
      fun tail ↦ attempt_inStep (hR.join _ _) _ _
    dsimp only
    split
    · exact .bind (attempt_inStep (hR.convert _ _) _ _) hjoin
    · exact .bind (.pure _) hjoin

theorem slotRegion_inStep {store : SlotStore} (hk : known store.name) :
    (slotRegion (ρ := ρ) store).InStep (Both R) E := by
  refine .bind (attempt_inStep (hR.getBlock _ hk) _ _) fun found ↦ ?_
  split
  · exact createSlots_inStep hR store
  · split
    · exact extendSlots_inStep hR store _
    · exact .pure _

theorem materialize_inStep (hN : Host.Seen F R) (loader : Loader ρ) {store : SlotStore}
    (hk : known store.name) : (materialize loader store).InStep (Both R) E := by
  rw [materialize]
  split
  · refine .bind (slotRegion_inStep hR hk) fun found ↦ ?_
    split
    · refine .bind (.report _ _) fun _ ↦ .forEach fun entry _ ↦ ?_
      exact fillSlot_inStep hN loader fun _ _ ↦ hR.setBytes _ _
    · exact .pure _
  · exact .pure _

end Memory

theorem complete_inStep (hR : Host.Supple known R) (hG : Host.Grown F R) (image : Image)
    (addresses : List Int) (linker : Linker) (hdefs : known linker.defs.name)
    (hrefs : known linker.refs.name) (hE : ∀ e, loader.Escapes e → E (.resolve e)) :
    (complete loader image addresses linker).InStep (Both R) E :=
  .bind (.forEach fun _ _ ↦ writeBack_inStep hR _ _ _ _) fun _ ↦
    .bind (materialize_inStep hR hG.toSeen loader hdefs) fun _ ↦
      .bind (materialize_inStep hR hG.toSeen loader hrefs) fun _ ↦
        finish_inStep hG image addresses linker hE

section Link

variable (hR : Host.Supple known R) (hdefs : known Linker.defsName) (hrefs : known Linker.refsName)
  (hL : Linker.Binding R D) {image : Image}
  (ho : ∀ segment ∈ image.segments, ∀ reference ∈ segment.references,
    ∀ offset ∈ reference.offsets, 0 ≤ offset)
include hR hdefs hrefs hL ho

/-- Links on two hosts fail in one way, or give linkers that differ in their hosts only. -/
theorem runLinker_cases (addresses : List Int) (buffers : List Bytes) (base imageEnd : Int)
    {first second : Loading ρ} (h : Both R first second) :
    ∃ first' second', Both R first' second' ∧
      ((∃ e, D e ∧ run (runLinker image addresses buffers base imageEnd) first =
          (.error (.ofLink e), first') ∧
        run (runLinker image addresses buffers base imageEnd) second = (.error (.ofLink e), second')) ∨
      ∃ linker host, run (runLinker image addresses buffers base imageEnd) first =
          (.ok linker, first') ∧
        run (runLinker image addresses buffers base imageEnd) second =
          (.ok { linker with host }, second')) := by
  -- Reserving slots fails on no host, and takes the same slots on both.
  have hreserve : ∀ (store : SlotStore) (s t : Loading ρ), known store.name → Both R s t →
      ∃ store' s' t', Both R s' t' ∧ run (reserveSlots store) s = (.ok store', s') ∧
        run (reserveSlots store) t = (.ok store', t') := by
    intro store s t hk hst
    have hend := reserveSlots_inStep (E := fun _ ↦ False) hR hk s t hst
    rcases hs : run (reserveSlots store) s with ⟨r, s'⟩
    rcases ht : run (reserveSlots store) t with ⟨r', t'⟩
    rw [hs, ht] at hend
    cases hend with
    | ok hstore h =>
      subst hstore
      exact ⟨_, s', t', h, rfl, rfl⟩
    | error he h => exact he.elim
  obtain ⟨defs, s, t, hst, hs, ht⟩ := hreserve
    (.empty Linker.defsName (base + Linker.defsDistance) true) first second hdefs h
  obtain ⟨refs, s', t', ⟨host, hhost, rfl⟩, hs', ht'⟩ := hreserve (.empty Linker.refsName imageEnd false) s t
    hrefs hst
  rw [run_runLinker hs hs', run_runLinker ht ht']
  have hlink := Linker.link_inStep hL addresses imageEnd ho
    { Linker.start s'.host buffers base imageEnd with defs, refs }
    { Linker.start host buffers base imageEnd with defs, refs } ⟨host, hhost, rfl⟩
  dsimp only [Linker.start] at hlink ⊢
  generalize run (Linker.link image addresses imageEnd) _ = p at hlink ⊢
  generalize run (Linker.link image addresses imageEnd) _ = q at hlink ⊢
  cases hlink with
  | ok _ hlast =>
    obtain ⟨host, hhost, rfl⟩ := hlast
    exact ⟨_, _, ⟨host, hhost, rfl⟩, Or.inr ⟨_, host, rfl, rfl⟩⟩
  | error he hlast =>
    obtain ⟨host, hhost, rfl⟩ := hlast
    exact ⟨_, _, ⟨host, hhost, rfl⟩, Or.inl ⟨_, he, rfl, rfl⟩⟩

/-- What a load does behind its link does not look at the host of the linker. -/
theorem runLinker_coupled (hRS : ∀ s t, R s t → S s t) (hD : ∀ e, D e → E (.ofLink e))
    (addresses : List Int) (buffers : List Bytes) (base imageEnd : Int) {f : Linker → Load ρ β}
    (hhost : ∀ linker host, f { linker with host } = f linker)
    (hf : ∀ linker, (f linker).InStep (Both S) E) :
    (runLinker image addresses buffers base imageEnd >>= f).Coupled (Both R) (Both S) E := by
  intro first second h
  obtain ⟨first', second', h', hcases⟩ :=
    runLinker_cases hR hdefs hrefs hL ho addresses buffers base imageEnd h
  have hlast : Both S first' second' := h'.mono hRS
  rcases hcases with ⟨e, he, hs, ht⟩ | ⟨linker, host, hs, ht⟩
  · rw [Action.run_bind_error hs, Action.run_bind_error ht]
    exact .error (hD e he) hlast
  · rw [Action.run_bind_ok hs, Action.run_bind_ok ht, hhost linker host]
    exact hf linker first' second' hlast

end Link

section Load

variable {R S : Loading ρ → Loading ρ → Prop} {Q : LoadResult → LoadResult → Prop}
  (hRS : ∀ s t, R s t → S s t) (hQ : ∀ result, Q result result) (hE : ∀ e : LoadError, e.OfInput → E e)
  (hcreate : ∀ id segment address data, (createSegment (ρ := ρ) id segment address data).InStep R E)
  (hrest : ∀ image : Image, (∀ segment ∈ image.segments, ∀ reference ∈ segment.references,
      ∀ offset ∈ reference.offsets, 0 ≤ offset) → ∀ addresses buffers imageEnd,
    Tandem R S E Q
      (runLinker image addresses buffers loader.base imageEnd >>= complete loader image addresses)
      (runLinker image addresses buffers loader.base imageEnd >>= complete loader image addresses))
include hRS hE hcreate hrest

/-- Up to its link the load of a file goes by the file, but for the regions. -/
theorem loadFile_tandem {file : File} {data : Bytes}
    (hread : (File.read data 0 none none).result = .ok file) :
    Tandem R S E Q (loadFile loader file) (loadFile loader file) := by
  rw [loadFile_eq]
  refine Tandem.bind_of_run (InStep.report _ _) hRS fun _ _ _ _ _ _ _ _ _ _ ↦ ?_
  refine Tandem.bind_of_run (InStep.within fun e he ↦ ?_) hRS ?_
  · rw [Action.run_mapError] at he
    obtain ⟨e, -, rfl⟩ := Action.mapError_eq_error.mp he
    exact hE _ trivial
  rintro _ _ ⟨image, _⟩ _ _ _ - himage - rfl
  have hbuilt := Action.run_mapError_eq_ok.mp (Action.run_within_eq_ok.mp himage).1
  obtain ⟨hunks, hi⟩ := Image.exists_isRead hread hbuilt
  dsimp only
  refine Tandem.bind_of_run (InStep.within fun e he ↦ ?_) hRS ?_
  · rw [Action.run_mapError] at he
    obtain ⟨e, herror, rfl⟩ := Action.mapError_eq_error.mp he
    exact hE _ ((Image.relocate_confined hi loader.base 0).raises () trivial e herror).ofInput
  rintro _ _ ⟨buffers, _⟩ _ _ _ - - - rfl
  dsimp only
  refine Tandem.bind_of_run (InStep.forEach fun _ _ ↦ hcreate _ _ _ _) hRS
    fun _ _ _ _ _ _ _ _ _ _ ↦ ?_
  refine Tandem.bind_of_run (InStep.report _ _) hRS fun _ _ _ _ _ _ _ _ _ _ ↦ ?_
  exact hrest image (fun _ hm _ hr _ ho ↦ hi.offset_nonneg hm hr ho) _ _ _

include hQ in
theorem load_tandem (hkickstart : ∀ data base,
      Tandem R S E Q (loadKickstart loader data base) (loadKickstart loader data base)) (data : Bytes) :
    Tandem R S E Q (load loader data) (load loader data) := by
  refine Tandem.bind_of_run (InStep.ofExcept fun e he ↦ ?_) hRS ?_
  · obtain ⟨e, -, rfl⟩ := Action.mapError_eq_error.mp he
    exact hE _ trivial
  rintro _ _ spec _ _ _ - - - rfl
  split
  · exact (Tandem.throw (hE (.parse _) trivial)).of_imp hRS
  · exact hkickstart data _
  · refine Tandem.bind_of_run (InStep.within fun e he ↦ ?_) hRS ?_
    · rw [Action.run_mapError] at he
      obtain ⟨e, -, rfl⟩ := Action.mapError_eq_error.mp he
      exact hE _ trivial
    rintro _ _ ⟨file, _⟩ _ _ _ - hfile - rfl
    have hread := Action.run_mapError_eq_ok.mp (Action.run_within_eq_ok.mp hfile).1
    dsimp only
    split
    · refine Tandem.bind_of_run (InStep.report _ _) hRS fun _ _ _ _ _ _ _ _ _ _ ↦ ?_
      exact (Tandem.pure (hQ _)).of_imp hRS
    · exact loadFile_tandem hRS hE hcreate hrest (congrArg Prod.fst hread)

end Load

section Coupled

variable (hR : Host.Pliant R) (hL : Linker.Binding R D) (hS : Host.Lockstep S)
  (hRS : ∀ s t, R s t → S s t) (hD : ∀ e, D e → E (.ofLink e)) (hE : ∀ e : LoadError, e.OfInput → E e)
  (hresolver : ∀ e, loader.Escapes e → E (.resolve e))

include hS hresolver in
theorem loadKickstart_inStep (data : Bytes) (base : Int) :
    (loadKickstart loader data base).InStep (Both S) E :=
  .bind (.report _ _) fun _ ↦ .bind (createBlock_inStep hS.supple _) fun _ ↦
    .bind (createCustom_inStep hS.growing.grown loader) fun _ ↦
      .bind (scanResidents_inStep hS.seen _ hresolver) fun _ ↦
        .bind (setFunction_inStep hS.seen _ _) fun _ ↦ .pure _

include hR hL hS hRS hD hE hresolver

/-- The labels count up to the link, behind it only the memory. -/
theorem load_coupled (data : Bytes) : (load loader data).Coupled (Both R) (Both S) E := by
  refine load_tandem (Both.mono hRS) (fun _ ↦ rfl) hE (fun _ _ _ _ ↦ createSegment_inStep hR.supple _ _ _ _) ?_
    (fun _ _ ↦ Tandem.of_imp (loadKickstart_inStep hS hresolver _ _) (Both.mono hRS)) data
  intro image ho addresses buffers imageEnd
  exact runLinker_coupled hR.supple trivial trivial hL ho hRS hD _ _ _ _ (fun _ _ ↦ rfl) fun linker ↦
    complete_inStep hS.supple hS.growing.grown image _ linker trivial trivial hresolver

end Coupled

end Loading

end Hunks
