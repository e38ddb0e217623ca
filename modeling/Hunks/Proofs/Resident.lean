import Mathlib
import Hunks.Proofs.Host.Twins
import Hunks.Resident

namespace Hunks

open Hunks.Action (run Abreast Confined InStep Parallel Relates Shared)

namespace InitData

variable {σ ε : Type} {R : σ → σ → Prop} {E : ε → ε → Prop} {readByte : Int → Action σ ε Nat}

theorem readNumber_abreast (h : ∀ address, (readByte address).Abreast R E) (address : Int)
    (width : Nat) : (readNumber readByte address width).Abreast R E :=
  .foldl (fun _ _ _ ↦ .bind (h _) fun _ ↦ .pure _) _

theorem readOffset_abreast (h : ∀ address, (readByte address).Abreast R E) (address : Int)
    (destination : Destination) : (readOffset readByte address destination).Abreast R E := by
  cases destination with
  | next => exact .pure _
  | repeated => exact .pure _
  | offset8 => exact .bind (readNumber_abreast h _ _) fun _ ↦ .pure _
  | offset24 => exact .bind (readNumber_abreast h _ _) fun _ ↦ .pure _

theorem readCommand_abreast (h : ∀ address, (readByte address).Abreast R E) {stop : Stop → ε}
    (hstop : ∀ reason, E (stop reason) (stop reason)) (address : Int) :
    (readCommand readByte stop address).Abreast R E := by
  refine .bind (h _) fun command ↦ .guard (fun _ ↦ hstop _) fun _ ↦ ?_
  extract_lets destination count
  split
  · refine .bind (readOffset_abreast h _ _) fun found ↦ .bind (.foldl ?_ _) fun _ ↦ .pure _
    exact fun _ _ _ ↦ .bind (readNumber_abreast h _ _) fun _ ↦ .pure _
  · exact .throw (hstop _)

end InitData

namespace Resident

variable {ρ α : Type} {P : Host → Prop} {R : Host → Host → Prop}
  {D : AccessError → AccessError → Prop} {sources : Sources ρ}

/-- An error that the resolver gives for some library and that is not merely mentioned. -/
def Sources.Escapes (sources : Sources ρ) (e : ResolveError) : Prop :=
  ∃ resolver ∈ sources.resolver, ∃ library lookups,
    (run (resolver library) lookups).1 = .error e ∧ ¬ e.isMild

theorem Sources.Escapes.isSome {e : ResolveError} (h : sources.Escapes e) : sources.resolver.isSome := by
  obtain ⟨resolver, hr, -⟩ := h
  rw [Option.mem_def.mp hr]
  rfl

/-- What a scan may fail with: errors of the host, and those of the resolver that escape. -/
def Sources.Raises (sources : Sources ρ) : ScanError → Prop
  | .host _ => True
  | .resolve e => sources.Escapes e

/-- What two scans may fail with: related errors of one call to the host, and one error of the resolver
that escapes. -/
inductive Sources.Blames (sources : Sources ρ) (D : AccessError → AccessError → Prop) :
    ScanError → ScanError → Prop
  | host {operation : Operation} {address : Option Int} {inner inner' : AccessError} : D inner inner' →
    sources.Blames D (.host ⟨operation, address, inner⟩) (.host ⟨operation, address, inner'⟩)
  | resolve {e : ResolveError} : sources.Escapes e → sources.Blames D (.resolve e) (.resolve e)

theorem Sources.Blames.raises {E : AccessError → Prop} {e e' : ScanError}
    (h : sources.Blames (Shared E) e e') : e = e' ∧ sources.Raises e := by
  cases h with
  | host he =>
    obtain ⟨rfl, -⟩ := he
    exact ⟨rfl, trivial⟩
  | resolve hr => exact ⟨rfl, hr⟩

namespace Scanner

/-- The host of a scan has a property. -/
def Has (P : Host → Prop) (scanner : Scanner ρ) : Prop :=
  P scanner.host

/-- Two scans on hosts in a relation, with nothing else that differs. -/
def Both (R : Host → Host → Prop) (first second : Scanner ρ) : Prop :=
  ∃ host, R first.host host ∧ second = { first with host }

theorem confined_of_abreast {ε : Type} {E : ε → Prop} {F : ε → ε → Prop} {x : Action (Scanner ρ) ε α}
    (hx : x.Abreast (Both (Host.Same P)) F) (hF : ∀ e e', F e e' → e = e' ∧ E e) :
    x.Confined (Has P) E :=
  (hx.inStep hF).confined (fun scanner h ↦ ⟨scanner.host, ⟨rfl, h⟩, rfl⟩) fun _ _ ⟨_, h, _⟩ ↦ h.2

theorem onHost_abreast {x : Host.Access α} (hx : x.Abreast R D) (operation : Operation)
    (address : Int) : (onHost (ρ := ρ) operation address x).Abreast (Both R) (sources.Blames D) := by
  have hcall : ((Host.call operation (some address) x).mapError ScanError.host).Abreast R
      (sources.Blames D) := by
    refine .mapError (E := fun e e' ↦ sources.Blames D (.host e) (.host e')) (.mapError hx ?_) ?_
    · exact fun _ _ he ↦ .host he
    · exact fun _ _ he ↦ he
  refine .focus hcall ?_ ?_
  · rintro s _ ⟨host, h, rfl⟩
    exact h
  · rintro a b s _ hab ⟨host, -, rfl⟩
    exact ⟨b, hab, rfl⟩

theorem run_annotate (operation : Operation) (address : Int) (x : Host.Access α)
    (scanner : Scanner ρ) :
    run (annotate operation address x) scanner =
      (.ok (), { scanner with host := (run x scanner.host).2 }) := by
  rw [annotate, Action.run_bind, Action.run_attempt, onHost, Action.run_focus, Action.run_mapError,
    Host.call, Action.run_mapError]
  cases (run x scanner.host).1 <;> rfl

theorem annotate_abreast {x : Host.Access α} (hx : x.Relates R) (operation : Operation)
    (address : Int) : (annotate (ρ := ρ) operation address x).Abreast (Both R) (sources.Blames D) := by
  rintro s _ ⟨host, h, rfl⟩
  rw [run_annotate, run_annotate]
  exact .ok rfl ⟨_, hx _ _ h, rfl⟩

/-- A change of what a scan keeps beside its host. -/
theorem modify_abreast {f : Scanner ρ → Scanner ρ}
    (hf : ∀ (s : Scanner ρ) host, f { s with host } = { f s with host }) :
    Action.Abreast (Both R) (sources.Blames D) (modify f : Scan ρ PUnit) := by
  refine .modify ?_
  rintro s _ ⟨host, h, rfl⟩
  refine ⟨host, ?_, hf s host⟩
  rwa [congrArg Scanner.host (hf s s.host)]

theorem ask_abreast {resolver : Resolver ρ} (hr : sources.resolver = some resolver)
    (library : String) : (ask resolver library).Abreast (Both R) (sources.Blames D) := by
  rintro s _ ⟨host, h, rfl⟩
  rw [ask, Action.run_bind, Action.run_bind, Action.run_focus, Action.run_focus, Action.run_attempt]
  dsimp only
  rcases hanswer : run (resolver library) s.lookups with ⟨e | _ | descriptor, lookups⟩
  · dsimp only
    split <;> rename_i hmild
    · exact .ok rfl ⟨host, h, rfl⟩
    · exact .error (.resolve ⟨resolver, hr, library, s.lookups, congrArg Prod.fst hanswer, hmild⟩)
        ⟨host, h, rfl⟩
  · exact .ok rfl ⟨host, h, rfl⟩
  · exact .ok rfl ⟨host, h, rfl⟩

theorem requestDescriptor_abreast (library : String) :
    (requestDescriptor sources library).Abreast (Both R) (sources.Blames D) := by
  rw [requestDescriptor]
  split <;> rename_i hr
  · exact .pure _
  · refine .get_bind (fun s _ ⟨host, _, h⟩ ↦ by rw [h]) fun _ ↦ ?_
    split
    · exact .pure _
    · exact .bind (modify_abreast fun _ _ ↦ rfl) fun _ ↦ ask_abreast hr _

theorem descriptorFor_abreast (library : String) (table : Int) (i : Nat)
    (known : Option Descriptor) :
    (descriptorFor sources library table i known).Abreast (Both R) (sources.Blames D) := by
  rw [descriptorFor]
  split
  · exact .pure _
  · refine .bind (requestDescriptor_abreast _) fun found ↦ ?_
    split
    · exact .bind (modify_abreast fun _ _ ↦ rfl) fun _ ↦ .bind (.report _ _) fun _ ↦ .pure _
    · exact .pure _

section Chain

variable (hR : Host.Seen D R)
include hR

theorem read_abreast (address : Int) (size : Nat) :
    (read (ρ := ρ) address size).Abreast (Both R) (sources.Blames D) :=
  .bind (onHost_abreast (hR.readBytes _ _) _ _) fun _ ↦ .pure _

theorem readNumber_abreast (size : Nat) (address : Int) :
    (readNumber (ρ := ρ) size address).Abreast (Both R) (sources.Blames D) :=
  .bind (read_abreast hR _ _) fun _ ↦ .pure _

theorem contains_abreast (address : Int) :
    (contains (ρ := ρ) address).Abreast (Both R) (sources.Blames D) :=
  onHost_abreast (hR.contains _) _ _

theorem roundLimit_abreast : (roundLimit (ρ := ρ)).Abreast (Both R) (sources.Blames D) := by
  refine .get_bind ?_ fun _ ↦ .pure _
  rintro s _ ⟨host, h, rfl⟩
  have hlimit : ∀ memory : Memory, memory.foldr (fun region n ↦ region.size.toNat + 1 + n) 1 =
      (memory.map Region.size).foldr (fun size n ↦ size.toNat + 1 + n) 1 := by
    intro memory
    rw [List.foldr_map]
  dsimp only
  rw [hlimit, hlimit, hR.sizes _ _ h]

theorem markData_abreast (address : Int) (type : DataType) :
    (markData (ρ := ρ) address type).Abreast (Both R) (sources.Blames D) :=
  annotate_abreast (hR.createData _ _) _ _

theorem markLabel_abreast (address : Int) (name : String) :
    (markLabel (ρ := ρ) address name).Abreast (Both R) (sources.Blames D) :=
  annotate_abreast (hR.createLabel _ _ _) _ _

theorem declare_abreast (address : Int) (name : String)
    (parameters : List Parameter) :
    (declare (ρ := ρ) address name parameters).Abreast (Both R) (sources.Blames D) :=
  .bind (annotate_abreast (hR.declareFunction _ _ _) _ _) fun _ ↦
    annotate_abreast (hR.addEntryPoint _) _ _

theorem readName_abreast (address : Int) :
    (readName (ρ := ρ) address).Abreast (Both R) (sources.Blames D) := by
  refine .bind (.repeatUpTo (fun _ ↦ .bind (readNumber_abreast hR _ _) fun _ ↦ .pure _) _ _)
    fun found ↦ ?_
  cases found with
  | inl name => exact .pure _
  | inr name => exact .pure _

/-- What may end a walk through commands, apart from their own end. -/
def InitStop.Raises (sources : Sources ρ) : InitStop → Prop
  | .data _ => True
  | .scan e => sources.Raises e

/-- What may end two walks. -/
inductive InitStop.Blames (sources : Sources ρ) (D : AccessError → AccessError → Prop) :
    InitStop → InitStop → Prop
  | data (stop : InitData.Stop) : InitStop.Blames sources D (.data stop) (.data stop)
  | scan {e e' : ScanError} : sources.Blames D e e' → InitStop.Blames sources D (.scan e) (.scan e')

theorem walkStep_abreast (found : Int × Array InitData.Command) :
    (walkStep (ρ := ρ) found).Abreast (Both R) (sources.Blames D) := by
  refine .attempt (E := InitStop.Blames sources D) (InitData.readCommand_abreast ?_ ?_ _) ?_ ?_
  · exact fun _ ↦ .mapError (readNumber_abreast hR _ _) fun _ _ he ↦ .scan he
  · exact fun _ ↦ .data _
  · exact fun command ↦ .bind (markData_abreast hR _ _) fun _ ↦ .pure _
  · intro e e' he
    cases he with
    | data stop => exact .bind (.report _ _ _ _) fun _ _ _ ↦ .pure rfl
    | scan he =>
      cases he with
      | host _ => exact .bind (.report _ _ _ _) fun _ _ _ ↦ .pure rfl
      | resolve hr => exact .throw (.resolve hr)

theorem walkInitData_abreast (address : Int) :
    (walkInitData (ρ := ρ) address).Abreast (Both R) (sources.Blames D) := by
  refine .bind (roundLimit_abreast hR) fun limit ↦
    .bind (.repeatUpTo (walkStep_abreast hR) _ _) fun found ↦ ?_
  cases found with
  | inl found => exact .pure _
  | inr commands => exact .pure _

theorem readVector_abreast (relative : Bool) (table : Int) (i : Nat) :
    (readVector (ρ := ρ) relative table i).Abreast (Both R) (sources.Blames D) := by
  rw [readVector]
  split
  · exact .bind (readNumber_abreast hR _ _) fun _ ↦ .pure _
  · exact .bind (readNumber_abreast hR _ _) fun _ ↦ .pure _

theorem markSlot_abreast (types : Option Catalog) (relative : Bool)
    (slot target : Int) :
    (markSlot (ρ := ρ) types relative slot target).Abreast (Both R) (sources.Blames D) := by
  rw [markSlot]
  split
  · exact .bind (markData_abreast hR _ _) fun _ ↦
      annotate_abreast (hR.addReference _ _) _ _
  · exact markData_abreast hR _ _

theorem decodeVector_abreast (library : String) (relative : Bool)
    (table : Int) (found : Option Descriptor × Array Vector) (slot target : Int) :
    (decodeVector sources library relative table found slot target).Abreast (Both R)
      (sources.Blames D) := by
  refine .bind (descriptorFor_abreast _ _ _ _) fun descriptor ↦ ?_
  refine .bind (markSlot_abreast hR _ _ _ _) fun _ ↦ .bind (.report _ _) fun _ ↦ ?_
  exact .bind (declare_abreast hR _ _ _) fun _ ↦ .pure _

omit hR in
/-- An attempt of which an error of the host is only mentioned. -/
theorem attempt_abreast {x : Scan ρ α} {β : Type} {f : Except ScanError α → Scan ρ β}
    (hx : x.Abreast (Both R) (sources.Blames D)) (hok : ∀ a, (f (.ok a)).Abreast (Both R) (sources.Blames D))
    (hhost : ∀ e e', Parallel (Both R) (Both R) (sources.Blames D) Eq (f (.error (.host e)))
      (f (.error (.host e'))))
    (hresolve : ∀ e, f (.error (.resolve e)) = throw (.resolve e)) :
    ((x.attempt : Scan ρ _) >>= f).Abreast (Both R) (sources.Blames D) := by
  refine .attempt hx hok fun e e' he ↦ ?_
  cases he with
  | host _ => exact hhost _ _
  | resolve hr =>
    rw [hresolve]
    exact .throw (.resolve hr)

theorem tableStep_abreast (module : String) (relative : Bool) (table : Int)
    (found : Option Descriptor × Array Vector) :
    (tableStep sources module relative table found).Abreast (Both R) (sources.Blames D) := by
  refine attempt_abreast (readVector_abreast hR _ _ _) (fun vector ↦ ?_) (fun e e' ↦ ?_) fun _ ↦ rfl
  · cases vector with
    | none => exact .pure _
    | some vector =>
      refine .bind (contains_abreast hR _) fun there ↦ ?_
      split
      · exact .pure _
      · exact .bind (decodeVector_abreast hR _ _ _ _ _ _) fun _ ↦ .pure _
  · exact .bind (.report _ _ _ _) fun _ _ _ ↦ .pure rfl

theorem decodeTable_abreast (module : String) (table : Int) :
    (decodeTable sources module table).Abreast (Both R) (sources.Blames D) := by
  refine .get_bind (fun s _ ⟨host, _, h⟩ ↦ by rw [h]) fun _ ↦ .bind (readNumber_abreast hR _ _) fun word ↦ ?_
  refine .bind (roundLimit_abreast hR) fun limit ↦
    .bind (.repeatUpTo (tableStep_abreast hR _ _ _) _ _) fun found ↦ ?_
  cases found with
  | inl found => exact .pure _
  | inr vectors => exact .pure _

theorem analyzeTable_abreast (module : Resident) :
    (analyzeTable sources module).Abreast (Both R) (sources.Blames D) := by
  refine .bind (read_abreast hR _ _) fun raw ↦ ?_
  extract_lets bytes long table tag finish
  have hfinish : ∀ initData, (finish initData).Abreast (Both R) (sources.Blames D) := fun initData ↦
    .bind (markLabel_abreast hR _ _) fun _ ↦ .bind (decodeTable_abreast hR _ _) fun _ ↦ .pure _
  refine .bind (markData_abreast hR _ _) fun _ ↦ .bind (declare_abreast hR _ _ _) fun _ ↦ ?_
  split
  · exact .bind (.pure _) hfinish
  · exact .bind (markLabel_abreast hR _ _) fun _ ↦ .bind (walkInitData_abreast hR _) hfinish

theorem analyze_abreast (address : Int) :
    (analyze sources address).Abreast (Both R) (sources.Blames D) := by
  refine .bind (read_abreast hR _ _) fun raw ↦ .bind (markData_abreast hR _ _) fun _ ↦
    .bind (readName_abreast hR _) fun name ↦ ?_
  extract_lets place finish readId
  have hfinish : ∀ idString, (finish idString).Abreast (Both R) (sources.Blames D) := by
    refine fun idString ↦ .bind (.report _ _) fun _ ↦ ?_
    dsimp only
    split
    · exact analyzeTable_abreast hR _
    · exact .pure _
  have hread : ∀ hasId, (readId hasId).Abreast (Both R) (sources.Blames D) := by
    intro hasId
    dsimp only [readId]
    split
    · exact .bind (readName_abreast hR _) hfinish
    · exact .bind (.pure _) hfinish
  split
  · exact .bind (.pure _) hread
  · exact .bind (contains_abreast hR _) hread

theorem examine_abreast (address : Int) :
    (examine sources address).Abreast (Both R) (sources.Blames D) := by
  refine attempt_abreast (readNumber_abreast hR _ _) (fun tag ↦ ?_) (fun _ _ ↦ .pure rfl) fun _ ↦ rfl
  dsimp only
  split
  · exact .pure _
  · refine attempt_abreast (analyze_abreast hR _) (fun _ ↦ .pure _) (fun e e' ↦ ?_) fun _ ↦ rfl
    exact .bind (.report _ _ _ _) fun _ _ _ ↦ .pure rfl

theorem scanStep_abreast (found : Int × Array Resident) :
    (scanStep sources found).Abreast (Both R) (sources.Blames D) := by
  refine .bind (onHost_abreast (hR.find _ _) _ _) fun place ↦ ?_
  cases place with
  | none => exact .pure _
  | some address =>
    refine .bind (examine_abreast hR _) fun module ↦ ?_
    cases module with
    | none => exact .pure _
    | some module => exact .pure _

/-- A scan for resident modules depends on the memory alone, and only fails if the host or the resolver
does. -/
theorem scan_abreast (start : Int) :
    (scan sources start).Abreast (Both R) (sources.Blames D) := by
  refine .bind (roundLimit_abreast hR) fun limit ↦
    .bind (.repeatUpTo (scanStep_abreast hR) _ _) fun found ↦ ?_
  cases found with
  | inl found => exact .bind (.report _ _) fun _ ↦ .pure _
  | inr modules => exact .bind (.report _ _) fun _ ↦ .pure _

end Chain

theorem scan_confined (hP : Host.Lasting P) (start : Int) :
    (scan sources start).Confined (Has P) sources.Raises :=
  confined_of_abreast (scan_abreast hP.noting.seen start) fun _ _ ↦ Sources.Blames.raises

end Scanner

end Resident

end Hunks
