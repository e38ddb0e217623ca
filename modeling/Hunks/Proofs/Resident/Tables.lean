import Mathlib
import Hunks.Proofs.Resident.InitData

namespace Hunks

open Hunks.Action (run Rounds)

namespace Resident

namespace Scanner

/-- Functions at distances from the start of a table, between two words of ones. -/
structure RelativeTable (memory : Memory) (table : Int) (targets : List Int) : Prop where
  mark : memory.number? table 2 = some 0xffff
  entry : ∀ (i : Nat) (target : Int), targets[i]? = some target →
    ∃ distance : Int, -0x8000 ≤ distance ∧ distance < 0x8000 ∧ distance ≠ -1 ∧
      target = table + distance ∧
      memory.number? (table + (i + 1) * 2) 2 = some (distance % 0x10000).toNat
  stop : memory.number? (table + (targets.length + 1) * 2) 2 = some 0xffff

/-- Functions at addresses one behind the other, in a table that does not start with a word of ones. -/
structure AbsoluteEntries (memory : Memory) (table : Int) (targets : List Int) : Prop where
  unmarked : ∃ word, memory.number? table 2 = some word ∧ word ≠ 0xffff
  entry : ∀ (i : Nat) (target : Int), targets[i]? = some target →
    ∃ n : Nat, target = n ∧ memory.number? (table + i * 4) 4 = some n

/-- What stands behind the last address leads outside of memory, if it can be read. -/
structure AbsoluteTable (memory : Memory) (table : Int) (targets : List Int) : Prop
    extends AbsoluteEntries memory table targets where
  stop : ∀ n : Nat, memory.number? (table + targets.length * 4) 4 = some n → ¬ memory.contains n

def baseParameter : Parameter :=
  ⟨"base", some "BaseLib *", some "A6"⟩

/-- The vectors of functions in the order of a table, with what a descriptor says about those behind the
standard ones. -/
structure Lists (descriptor : Option Descriptor) (targets : List Int) (vectors : List Vector) : Prop where
  index : vectors.map Vector.index = List.range targets.length
  address : vectors.map Vector.address = targets
  standard : ∀ vector ∈ vectors, ∀ name, standardVectors[vector.index]? = some name →
    vector.name = name ∧ vector.parameters = [baseParameter]
  described : ∀ vector ∈ vectors, ∀ (place : Nat) (prototype : Descriptor.Prototype),
    vector.index = standardVectors.length + place → descriptor.bind (·.at? place) = some prototype →
      vector.name = prototype.name ∧
      vector.parameters = baseParameter :: prototype.arguments.map fun argument ↦
        ⟨argument.name, some (argumentType argument.type), some argument.register⟩
  generic : ∀ vector ∈ vectors, ∀ place : Nat,
    vector.index = standardVectors.length + place → descriptor.bind (·.at? place) = none →
      vector.name = "LibFunc_" ++ Text.padLeft '0' 3 (toString place) ∧
      vector.parameters = [baseParameter]

/-- What a descriptor says about the function at a place of a table. -/
def prototypeAt (descriptor : Option Descriptor) (i : Nat) : Option Descriptor.Prototype :=
  if i < standardVectors.length then none
  else descriptor.bind (·.at? (i - standardVectors.length : Nat))

def vectorAt (descriptor : Option Descriptor) (i : Nat) (target : Int) : Vector :=
  ⟨i, target, vectorName i (prototypeAt descriptor i), vectorParameters (prototypeAt descriptor i)⟩

/-- No descriptor counts for the standard vectors. -/
theorem vectorAt_standard {i : Nat} (hi : i < standardVectors.length) (descriptor other : Option Descriptor)
    (target : Int) : vectorAt descriptor i target = vectorAt other i target := by
  rw [vectorAt, vectorAt, prototypeAt, prototypeAt, if_pos hi, if_pos hi]

theorem prototypeAt_add (descriptor : Option Descriptor) (place : Nat) :
    prototypeAt descriptor (standardVectors.length + place) = descriptor.bind (·.at? place) := by
  rw [prototypeAt, if_neg (by omega), Nat.add_sub_cancel_left]

theorem vectorName_add (place : Nat) (prototype : Option Descriptor.Prototype) :
    vectorName (standardVectors.length + place) prototype =
      match prototype with
      | some prototype => prototype.name
      | none => "LibFunc_" ++ Text.padLeft '0' 3 (toString place) := by
  have hbehind : standardVectors[standardVectors.length + place]? = none :=
    List.getElem?_eq_none (Nat.le_add_right ..)
  cases prototype <;> simp only [vectorName, hbehind, Nat.add_sub_cancel_left]

theorem lists_mapIdx (descriptor : Option Descriptor) (targets : List Int) :
    Lists descriptor targets (targets.mapIdx (vectorAt descriptor)) where
  index := List.ext_getElem (by simp) (by simp [vectorAt])
  address := List.ext_getElem (by simp) (by simp [vectorAt])
  standard := by
    intro vector hv name hname
    obtain ⟨i, _, rfl⟩ := List.mem_mapIdx.mp hv
    have hi : i < standardVectors.length := (List.getElem?_eq_some_iff.mp hname).1
    have hnone : prototypeAt descriptor i = none := if_pos hi
    have hname' : standardVectors[i]? = some name := hname
    rw [vectorAt, hnone]
    refine ⟨?_, rfl⟩
    simp only [vectorName, hname']
  described := by
    intro vector hv place prototype hplace hprototype
    obtain ⟨i, _, rfl⟩ := List.mem_mapIdx.mp hv
    obtain rfl : i = standardVectors.length + place := hplace
    rw [vectorAt, prototypeAt_add, hprototype, vectorName_add]
    exact ⟨rfl, rfl⟩
  generic := by
    intro vector hv place hplace hnone
    obtain ⟨i, _, rfl⟩ := List.mem_mapIdx.mp hv
    obtain rfl : i = standardVectors.length + place := hplace
    rw [vectorAt, prototypeAt_add, hnone, vectorName_add]
    exact ⟨rfl, rfl⟩

variable {ρ α : Type} {sources : Sources ρ} {scanner scanner' : Scanner ρ} {memory : Memory}
  {library module : String} {relative : Bool} {table slot target : Int} {targets done rest : List Int}
  {i : Nat} {known : Option Descriptor} {vectors : Array Vector}
  {answer : Except ResolveError (Option Descriptor)}

/-- An error that is only mentioned leaves a library without a descriptor. -/
def accepted : Except ResolveError (Option Descriptor) → Except ResolveError (Option Descriptor)
  | .ok found => .ok found
  | .error e => if e.isMild then .ok none else .error e

def requested (sources : Sources ρ) (scanner : Scanner ρ) (library : String) :
    Except ResolveError (Option Descriptor) :=
  match sources.resolver with
  | none => .ok none
  | some resolver =>
    if library ∈ scanner.asked then .ok none else accepted (run (resolver library) scanner.lookups).1

/-- The descriptor to use behind the standard vectors: the one that is known, else one on request. -/
def settled (sources : Sources ρ) (scanner : Scanner ρ) (library : String) :
    Option Descriptor → Except ResolveError (Option Descriptor)
  | some descriptor => .ok (some descriptor)
  | none => requested sources scanner library

def descriptorOf (sources : Sources ρ) (scanner : Scanner ρ) (library : String) :
    Except ResolveError (Option Descriptor) :=
  settled sources scanner library (scanner.registry.get? library)

theorem run_ask (resolver : Resolver ρ) (library : String) (scanner : Scanner ρ) :
    ∃ scanner', run (ask resolver library) scanner =
        ((accepted (run (resolver library) scanner.lookups).1).mapError .resolve, scanner') ∧
      scanner'.host = scanner.host ∧ scanner'.asked = scanner.asked := by
  rw [ask, Action.run_bind, Action.run_focus, Action.run_attempt]
  rcases run (resolver library) scanner.lookups with ⟨e | _ | descriptor, lookups⟩
  · dsimp only [accepted]
    split <;> exact ⟨_, rfl, rfl, rfl⟩
  · exact ⟨_, rfl, rfl, rfl⟩
  · exact ⟨_, rfl, rfl, rfl⟩

theorem requested_of_asked (h : library ∈ scanner.asked) :
    requested sources scanner library = .ok none := by
  rw [requested]
  split
  · rfl
  · rw [if_pos h]

theorem run_requestDescriptor (sources : Sources ρ) (library : String) (scanner : Scanner ρ) :
    ∃ scanner', run (requestDescriptor sources library) scanner =
        ((requested sources scanner library).mapError .resolve, scanner') ∧
      scanner'.host = scanner.host ∧ requested sources scanner' library = .ok none := by
  cases hresolver : sources.resolver with
  | none =>
    simp only [requestDescriptor, requested, hresolver]
    exact ⟨scanner, rfl, rfl, trivial⟩
  | some resolver =>
    by_cases hasked : library ∈ scanner.asked
    · refine ⟨scanner, ?_, rfl, requested_of_asked hasked⟩
      simp only [requestDescriptor, requested, hresolver]
      rw [Action.run_bind, Action.run_get]
      dsimp only
      rw [if_pos hasked, if_pos hasked]
      rfl
    · obtain ⟨scanner', hrun, hhost, hasked'⟩ :=
        run_ask resolver library { scanner with asked := library :: scanner.asked }
      refine ⟨scanner', ?_, hhost, requested_of_asked (hasked' ▸ List.mem_cons_self ..)⟩
      simp only [requestDescriptor, requested, hresolver]
      rw [Action.run_bind, Action.run_get]
      dsimp only
      rw [if_neg hasked, if_neg hasked]
      exact hrun

theorem run_descriptorFor_standard (hi : i < standardVectors.length) :
    run (descriptorFor sources library table i known) scanner = (.ok known, scanner) := by
  rw [descriptorFor, if_pos (Or.inr hi)]
  rfl

theorem run_descriptorFor (sources : Sources ρ) (library : String) (table : Int) (known : Option Descriptor)
    (scanner : Scanner ρ) (hi : ¬ i < standardVectors.length) :
    ∃ scanner', run (descriptorFor sources library table i known) scanner =
        ((settled sources scanner library known).mapError .resolve, scanner') ∧
      scanner'.host = scanner.host ∧
      ∀ descriptor, settled sources scanner library known = .ok descriptor →
        settled sources scanner' library descriptor = .ok descriptor := by
  cases known with
  | some descriptor =>
    rw [descriptorFor, if_pos (Or.inl Option.isSome_some)]
    refine ⟨scanner, rfl, rfl, fun _ h ↦ ?_⟩
    cases h
    rfl
  | none =>
    obtain ⟨scanner', hrun, hhost, hnone⟩ := run_requestDescriptor sources library scanner
    rw [descriptorFor, if_neg (by simpa using hi), settled]
    cases hfound : requested sources scanner library with
    | error e =>
      rw [hfound] at hrun
      exact ⟨scanner', Action.run_bind_error hrun, hhost, fun _ h ↦ by cases h⟩
    | ok found =>
      rw [hfound] at hrun
      rw [Action.run_bind_ok hrun]
      cases found with
      | some descriptor =>
        refine ⟨scanner', rfl, hhost, fun _ h ↦ ?_⟩
        cases h
        rfl
      | none =>
        by_cases hfirst : i = standardVectors.length
        · rw [if_pos ⟨rfl, hfirst⟩]
          refine ⟨_, rfl, hhost, fun _ h ↦ ?_⟩
          cases h
          exact hnone
        · rw [if_neg fun h ↦ hfirst h.2]
          refine ⟨scanner', rfl, hhost, fun _ h ↦ ?_⟩
          cases h
          exact hnone

/-- A computation that returns and changes nothing but a host, which keeps its memory. -/
def Marks (memory : Memory) (x : Scan ρ Unit) : Prop :=
  ∀ scanner, Has (Host.Steady memory) scanner → ∃ host, Host.Steady memory host ∧
    run x scanner = (.ok (), { scanner with host })

theorem Marks.annotate {operation : Operation} {x : Host.Access α} {address : Int}
    (hx : x.Preserves (Host.Steady memory)) :
    Marks memory (annotate (ρ := ρ) operation address x) :=
  fun _ hs ↦ ⟨_, hx _ hs, run_annotate ..⟩

theorem Marks.bind {x y : Scan ρ Unit} (hx : Marks memory x) (hy : Marks memory y) :
    Marks memory (x >>= fun _ ↦ y) := by
  intro scanner hs
  obtain ⟨host, hhost, hrun⟩ := hx scanner hs
  obtain ⟨host', hhost', hrun'⟩ := hy { scanner with host } hhost
  exact ⟨host', hhost', (Action.run_bind_ok hrun).trans hrun'⟩

theorem markSlot_marks (memory : Memory) (types : Option Catalog) (relative : Bool) (slot target : Int) :
    Marks memory (markSlot (ρ := ρ) types relative slot target) := by
  have hP := (Host.steady_lasting memory).frame
  rw [markSlot]
  split
  · exact .bind (.annotate (Host.createData_preserves hP _ _)) (.annotate (Host.addReference_preserves hP _ _))
  · exact .annotate (Host.createData_preserves hP _ _)

theorem declare_marks (memory : Memory) (address : Int) (name : String) (parameters : List Parameter) :
    Marks memory (declare (ρ := ρ) address name parameters) :=
  have hP := Host.steady_lasting memory
  have hlabel := Host.createLabel_preserves hP address name Label.imported
  .bind (.annotate (Host.declareFunction_preserves hP.frame hlabel _))
    (.annotate (Host.addEntryPoint_preserves hP.frame _))

/-- What the reader of a table finds at a place of it, unless it cannot read there. -/
def found? (memory : Memory) (relative : Bool) (table : Int) (i : Nat) : Option (Option (Int × Int)) :=
  let slot := slotOf relative table i
  if relative then
    (memory.number? slot 2).map fun distance ↦
      if distance = 0xffff then none else some (slot, table + Bytes.signed 2 distance)
  else
    (memory.number? slot 4).map fun (n : Nat) ↦ some (slot, (n : Int))

theorem run_readVector (hr : scanner.host.Reliable) {entry : Option (Int × Int)}
    (h : found? scanner.memory relative table i = some entry) :
    run (readVector relative table i) scanner = (.ok entry, scanner) := by
  cases relative with
  | true =>
    obtain ⟨distance, hdistance, rfl⟩ := Option.map_eq_some_iff.mp h
    exact Action.run_bind_ok (run_readNumber hr hdistance)
  | false =>
    obtain ⟨n, hn, rfl⟩ := Option.map_eq_some_iff.mp h
    exact Action.run_bind_ok (run_readNumber hr hn)

theorem run_readVector_none (hr : scanner.host.Reliable)
    (h : found? scanner.memory relative table i = none) :
    ∃ e, run (readVector relative table i) scanner = (.error (.host e), scanner) := by
  cases relative with
  | true =>
    obtain ⟨e, he⟩ := run_readNumber_none hr (Option.map_eq_none_iff.mp h)
    exact ⟨e, Action.run_bind_error he⟩
  | false =>
    obtain ⟨e, he⟩ := run_readNumber_none hr (Option.map_eq_none_iff.mp h)
    exact ⟨e, Action.run_bind_error he⟩

/-- Where a table has its entry at a place and which function is there; none where it ends. -/
def target? (memory : Memory) (relative : Bool) (table : Int) (i : Nat) : Option (Int × Int) :=
  (found? memory relative table i).join.filter fun entry ↦ memory.contains entry.2

theorem run_tableStep_none (hr : scanner.host.Reliable)
    (h : target? scanner.memory relative table vectors.size = none) :
    run (tableStep sources module relative table (known, vectors)) scanner =
      (.ok (.inr vectors), scanner) := by
  cases hentry : found? scanner.memory relative table vectors.size with
  | none =>
    obtain ⟨e, he⟩ := run_readVector_none hr hentry
    rw [tableStep, Action.run_bind_ok (Action.run_attempt_eq_ok.mpr he)]
    rfl
  | some entry =>
    rw [tableStep, Action.run_bind_ok (Action.run_attempt_eq_ok.mpr (run_readVector hr hentry))]
    cases entry with
    | none => rfl
    | some entry =>
      rw [target?, hentry] at h
      have hout : ¬ scanner.memory.contains entry.2 := by simpa using h
      dsimp only
      rw [Action.run_bind_ok (run_contains hr entry.2), if_pos (by simpa using hout)]
      rfl

theorem run_tableStep_some (sources : Sources ρ) (module : String) (known : Option Descriptor)
    (hr : scanner.host.Reliable)
    (h : target? scanner.memory relative table vectors.size = some (slot, target)) :
    run (tableStep sources module relative table (known, vectors)) scanner =
      run (Sum.inl <$> decodeVector sources (libraryOf module) relative table (known, vectors) slot target)
        scanner := by
  obtain ⟨hentry, hin⟩ := Option.filter_eq_some_iff.mp h
  have hread := run_readVector hr (Option.join_eq_some_iff.mp hentry)
  rw [tableStep, Action.run_bind_ok (Action.run_attempt_eq_ok.mpr hread)]
  dsimp only
  rw [Action.run_bind_ok (run_contains hr target), if_neg (by simpa using hin)]
  rfl

/-- A table that holds these functions in one of the two forms. -/
structure Tabulated (memory : Memory) (relative : Bool) (table : Int) (targets : List Int) : Prop where
  mark : ∃ word, memory.number? table 2 = some word ∧ decide (word = 0xffff) = relative
  entry : ∀ (i : Nat) (target : Int), targets[i]? = some target →
    ∃ slot, target? memory relative table i = some (slot, target)
  stop : target? memory relative table targets.length = none

theorem signed_word {distance : Int} (hl : -0x8000 ≤ distance) (hu : distance < 0x8000) :
    Bytes.signed 2 (distance % 0x10000).toNat = distance := by
  rw [Bytes.signed, Int.toNat_of_nonneg (Int.emod_nonneg _ (by decide))]
  refine (Int.emod_bmod ..).trans (Int.bmod_eq_of_le ?_ ?_)
  · exact hl
  · exact hu

theorem RelativeTable.tabulated (h : RelativeTable memory table targets)
    (hin : ∀ target ∈ targets, memory.contains target) : Tabulated memory true table targets where
  mark := ⟨0xffff, h.mark, rfl⟩
  entry i target hi := by
    obtain ⟨distance, hl, hu, hne, rfl, hread⟩ := h.entry i target hi
    have hentry : found? memory true table i =
        some (some (slotOf true table i, table + distance)) := by
      rw [found?, if_pos rfl, slotOf, if_pos rfl, hread, Option.map_some, if_neg (by omega), signed_word hl hu]
    refine ⟨slotOf true table i, ?_⟩
    rw [target?, hentry, Option.join_some, Option.filter_some, if_pos (hin _ (List.mem_of_getElem? hi))]
  stop := by
    rw [target?, found?, if_pos rfl, slotOf, if_pos rfl, h.stop]
    rfl

theorem AbsoluteTable.tabulated (h : AbsoluteTable memory table targets)
    (hin : ∀ target ∈ targets, memory.contains target) : Tabulated memory false table targets where
  mark := by
    obtain ⟨word, hword, hne⟩ := h.unmarked
    exact ⟨word, hword, decide_eq_false hne⟩
  entry i target hi := by
    obtain ⟨n, rfl, hread⟩ := h.entry i target hi
    have hentry : found? memory false table i = some (some (slotOf false table i, (n : Int))) := by
      rw [found?, if_neg Bool.false_ne_true, slotOf, if_neg Bool.false_ne_true, hread, Option.map_some]
    refine ⟨slotOf false table i, ?_⟩
    rw [target?, hentry, Option.join_some, Option.filter_some, if_pos (hin _ (List.mem_of_getElem? hi))]
  stop := by
    rw [target?, found?, if_neg Bool.false_ne_true, slotOf, if_neg Bool.false_ne_true]
    cases hread : memory.number? (table + targets.length * 4) 4 with
    | none => rfl
    | some n =>
      rw [Option.map_some, Option.join_some, Option.filter_some, if_neg (h.stop n hread)]

/-- A function is entered with the name and the parameters of its vector, and the descriptor stays settled. -/
theorem run_decodeVector (descriptor : Option Descriptor) (hs : Has (Host.Steady memory) scanner)
    (ha : settled sources scanner library known = answer)
    (hd : ¬ vectors.size < standardVectors.length → answer = .ok descriptor) :
    ∃ known' scanner', run (decodeVector sources library relative table (known, vectors) slot target) scanner =
        (.ok (known', vectors.push (vectorAt descriptor vectors.size target)), scanner') ∧
      Has (Host.Steady memory) scanner' ∧ settled sources scanner' library known' = answer := by
  have hdescriptor : ∃ known' middle, run (descriptorFor sources library table vectors.size known) scanner =
        (.ok known', middle) ∧ middle.host = scanner.host ∧
      settled sources middle library known' = answer ∧
      vectorAt known' vectors.size target = vectorAt descriptor vectors.size target := by
    by_cases hi : vectors.size < standardVectors.length
    · exact ⟨known, scanner, run_descriptorFor_standard hi, rfl, ha, vectorAt_standard hi ..⟩
    · obtain ⟨middle, hrun, hhost, hsettled⟩ := run_descriptorFor sources library table known scanner hi
      have hok := ha.trans (hd hi)
      rw [hok] at hrun
      exact ⟨descriptor, middle, hrun, hhost, (hsettled _ hok).trans (hd hi).symm, rfl⟩
  obtain ⟨known', middle, hrun, hhost, hsettled, hvector⟩ := hdescriptor
  have hs' : Has (Host.Steady memory) middle := by rwa [Has, hhost]
  obtain ⟨host, hsteady, hmark⟩ := markSlot_marks memory sources.types relative slot target middle hs'
  obtain ⟨host', hsteady', hdeclare⟩ := declare_marks memory target
    (vectorName vectors.size (prototypeAt known' vectors.size))
    (vectorParameters (prototypeAt known' vectors.size)) { middle with host } hsteady
  refine ⟨known', { middle with host := host' }, ?_, hsteady', ?_⟩
  · rw [← hvector, decodeVector]
    dsimp only
    rw [Action.run_bind_ok hrun, Action.run_bind_ok hmark]
    exact (Action.run_bind_ok rfl).trans (Action.run_bind_ok hdeclare)
  · rw [← hsettled]
    cases known' <;> rfl

theorem run_decodeVector_error {e : ResolveError} (ha : settled sources scanner library known = .error e)
    (hi : ¬ vectors.size < standardVectors.length) :
    ∃ scanner', run (decodeVector sources library relative table (known, vectors) slot target) scanner =
      (.error (.resolve e), scanner') := by
  obtain ⟨middle, hrun, -, -⟩ := run_descriptorFor sources library table known scanner hi
  rw [ha] at hrun
  exact ⟨middle, Action.run_bind_error hrun⟩

/-- The loop over a table takes one of its functions in each round. -/
theorem rounds_tabulated (h : Tabulated memory relative table targets) {descriptor : Option Descriptor}
    (hd : standardVectors.length < targets.length → answer = .ok descriptor)
    (htargets : targets = done ++ rest) (hvectors : vectors.toList = done.mapIdx (vectorAt descriptor))
    (hs : Has (Host.Steady memory) scanner) (ha : settled sources scanner (libraryOf module) known = answer)
    {r : Except ScanError (Array Vector)}
    (hrounds : Rounds (tableStep sources module relative table) (known, vectors) scanner r scanner') :
    r.map Array.toList = .ok (targets.mapIdx (vectorAt descriptor)) := by
  have hsize : vectors.size = done.length := by simpa using congrArg List.length hvectors
  -- `answer` is what the descriptor comes to from any round on, so it carries over to the next one
  induction rest generalizing done known vectors scanner with
  | nil =>
    obtain rfl : targets = done := by simpa using htargets
    obtain ⟨hr, rfl⟩ := hs
    obtain ⟨rfl, -⟩ := hrounds.of_answer (run_tableStep_none hr (hsize ▸ h.stop))
    exact congrArg Except.ok hvectors
  | cons target rest ih =>
    have htarget : targets[vectors.size]? = some target := by simp [htargets, hsize]
    obtain ⟨slot, hslot⟩ := h.entry vectors.size target htarget
    have hlt : vectors.size < targets.length := (List.getElem?_eq_some_iff.mp htarget).1
    have hd' : ¬ vectors.size < standardVectors.length → answer = .ok descriptor := fun hi ↦ hd (by omega)
    obtain ⟨known', middle, hrun, hs', ha'⟩ := run_decodeVector descriptor hs ha hd'
    obtain ⟨hr, rfl⟩ := hs
    have hstep := (run_tableStep_some sources module known hr hslot).trans
      (Action.run_map_eq_ok.mpr ⟨_, hrun, rfl⟩)
    refine ih (htargets.trans (List.append_cons ..)) ?_ hs' ha' (hrounds.of_next hstep) ?_
    · rw [Array.toList_push, hvectors, List.mapIdx_concat, hsize]
    · rw [Array.size_push, hsize, List.length_append, List.length_singleton]

/-- An error of the resolver ends the loop behind the standard vectors. -/
theorem rounds_tabulated_error (h : Tabulated memory relative table targets) {e : ResolveError}
    (hlong : standardVectors.length < targets.length) (htargets : targets = done ++ rest)
    (hle : done.length ≤ standardVectors.length) (hsize : vectors.size = done.length)
    (hs : Has (Host.Steady memory) scanner)
    (ha : settled sources scanner (libraryOf module) known = .error e) {r : Except ScanError (Array Vector)}
    (hrounds : Rounds (tableStep sources module relative table) (known, vectors) scanner r scanner') :
    r = .error (.resolve e) := by
  induction rest generalizing done known vectors scanner with
  | nil =>
    rw [htargets, List.append_nil] at hlong
    omega
  | cons target rest ih =>
    have htarget : targets[vectors.size]? = some target := by simp [htargets, hsize]
    obtain ⟨slot, hslot⟩ := h.entry vectors.size target htarget
    obtain ⟨hr, rfl⟩ := id hs
    have hstep := run_tableStep_some sources module known hr hslot
    by_cases hi : vectors.size < standardVectors.length
    · obtain ⟨known', middle, hrun, hs', ha'⟩ :=
        run_decodeVector none hs ha fun hn ↦ absurd hi hn
      refine ih (htargets.trans (List.append_cons ..)) ?_ ?_ hs' ha'
        (hrounds.of_next (hstep.trans (Action.run_map_eq_ok.mpr ⟨_, hrun, rfl⟩)))
      · rw [List.length_append, List.length_singleton]
        omega
      · rw [Array.size_push, hsize, List.length_append, List.length_singleton]
    · obtain ⟨middle, hrun⟩ := run_decodeVector_error ha hi
      exact hrounds.of_error (hstep.trans (Action.run_bind_error hrun))

theorem run_decodeTable (scanner : Scanner ρ) (hr : scanner.host.Reliable)
    (h : Tabulated scanner.memory relative table targets) (module : String) {descriptor : Option Descriptor}
    (hd : standardVectors.length < targets.length →
      descriptorOf sources scanner (libraryOf module) = .ok descriptor) :
    (run (decodeTable sources module table) scanner).1 = .ok (targets.mapIdx (vectorAt descriptor)) := by
  obtain ⟨word, hword, rfl⟩ := h.mark
  obtain ⟨r, scanner', hrounds, hrun⟩ :=
    (loopsEnd sources scanner).vectors module table word scanner (run_readNumber hr hword)
  rw [hrun]
  exact rounds_tabulated h hd (List.nil_append targets).symm rfl ⟨hr, rfl⟩ rfl hrounds

theorem run_decodeTable_error (scanner : Scanner ρ) (hr : scanner.host.Reliable)
    (h : Tabulated scanner.memory relative table targets) (module : String) {e : ResolveError}
    (hlong : standardVectors.length < targets.length)
    (he : descriptorOf sources scanner (libraryOf module) = .error e) :
    (run (decodeTable sources module table) scanner).1 = .error (.resolve e) := by
  obtain ⟨word, hword, rfl⟩ := h.mark
  obtain ⟨r, scanner', hrounds, hrun⟩ :=
    (loopsEnd sources scanner).vectors module table word scanner (run_readNumber hr hword)
  rw [hrun, rounds_tabulated_error h hlong (List.nil_append targets).symm (Nat.zero_le _) rfl ⟨hr, rfl⟩ he
    hrounds]
  rfl

/-- The two forms of a table lead to the same vectors, whatever is known about descriptors; an error of the
resolver that is not only mentioned comes out of both. -/
theorem decodeTable_forms (sources : Sources ρ) (scanner : Scanner ρ) (other : Host) (module : String)
    (table table' : Int) (targets : List Int) (hr : scanner.host.Reliable) (hr' : other.Reliable)
    (hin : ∀ target ∈ targets, scanner.memory.contains target)
    (hin' : ∀ target ∈ targets, other.program.memory.contains target)
    (hrelative : RelativeTable scanner.memory table targets)
    (habsolute : AbsoluteTable other.program.memory table' targets) :
    (∀ descriptor, (standardVectors.length < targets.length →
        descriptorOf sources scanner (libraryOf module) = .ok descriptor) →
      ∃ vectors, Lists descriptor targets vectors ∧
        (run (decodeTable sources module table) scanner).1 = .ok vectors ∧
        (run (decodeTable sources module table') { scanner with host := other }).1 = .ok vectors) ∧
    ∀ e, standardVectors.length < targets.length →
      descriptorOf sources scanner (libraryOf module) = .error e →
        (run (decodeTable sources module table) scanner).1 = .error (.resolve e) ∧
        (run (decodeTable sources module table') { scanner with host := other }).1 = .error (.resolve e) := by
  have h := hrelative.tabulated hin
  have h' := habsolute.tabulated hin'
  have hother : descriptorOf sources { scanner with host := other } (libraryOf module) =
      descriptorOf sources scanner (libraryOf module) := by
    rw [descriptorOf, descriptorOf]
    cases scanner.registry.get? (libraryOf module) <;> rfl
  refine ⟨fun descriptor hd ↦ ⟨_, lists_mapIdx descriptor targets, ?_, ?_⟩, fun e hlong he ↦ ⟨?_, ?_⟩⟩
  · exact run_decodeTable scanner hr h module hd
  · exact run_decodeTable { scanner with host := other } hr' h' module fun hlong ↦
      hother.trans (hd hlong)
  · exact run_decodeTable_error scanner hr h module hlong he
  · exact run_decodeTable_error { scanner with host := other } hr' h' module hlong
      (hother.trans he)

/-- A scan of a memory with blocks at these addresses. -/
def ofBlocks (blocks : List (Int × List UInt8)) : Scanner Unit where
  host := blocks.foldl (fun host (address, bytes) ↦
    (run (Host.createBlock { name := "ROM", address, data := some bytes.toArray }) host).2) (.ofProgram .empty)
  registry := []
  asked := []
  diagnostics := #[]
  lookups := ()

/-- Two functions with a gap between them. -/
def drawLibrary : Descriptor :=
  .ofFunctions "x_library" none [
    ⟨"Draw", [⟨"port", "A1", some "struct Port *"⟩, ⟨"x", "D0", none⟩], 30, false, none⟩,
    ⟨"Flush", [], 42, false, none⟩]

def drawSources : Sources Unit where
  types := none
  resolver := some fun _ ↦ pure (some drawLibrary)

def sampleTargets : List Int :=
  [0x1040, 0x1042, 0x1000, 0x1044, 0x1046, 0x1048, 0x1040]

def sampleBlock (table : List UInt8) : Int × List UInt8 :=
  (0x1000, List.replicate 0x10 0 ++ table ++ List.replicate 0x30 0)

def relativeSample : Scanner Unit :=
  ofBlocks [sampleBlock ([0xff, 0xff] ++ sampleTargets.flatMap (Bytes.ofInt 2 <| · - 0x1010) ++ [0xff, 0xff])]

def absoluteSample : Host :=
  (ofBlocks [sampleBlock (sampleTargets.flatMap (Bytes.ofInt 4) ++ [0xff, 0xff, 0xff, 0xff])]).host

theorem decodeTable_forms_sample :
    relativeSample.host.Reliable ∧ absoluteSample.Reliable ∧
      (∀ target ∈ sampleTargets, relativeSample.memory.contains target) ∧
      (∀ target ∈ sampleTargets, absoluteSample.program.memory.contains target) ∧
      RelativeTable relativeSample.memory 0x1010 sampleTargets ∧
      AbsoluteTable absoluteSample.program.memory 0x1010 sampleTargets ∧
      ∃ vectors, Lists (some drawLibrary) sampleTargets vectors ∧
        (run (decodeTable drawSources "x.library" 0x1010) relativeSample).1 = .ok vectors ∧
        (run (decodeTable drawSources "x.library" 0x1010) { relativeSample with host := absoluteSample }).1 =
          .ok vectors := by
  have hin : ∀ target ∈ sampleTargets, relativeSample.memory.contains target := by decide +kernel
  have hin' : ∀ target ∈ sampleTargets, absoluteSample.program.memory.contains target := by decide +kernel
  have hrelative : RelativeTable relativeSample.memory 0x1010 sampleTargets := by
    refine ⟨by decide +kernel, fun i target hi ↦ ?_, by decide +kernel⟩
    have hlt : i < 7 := (List.getElem?_eq_some_iff.mp hi).1
    refine ⟨target - 0x1010, ?_⟩
    interval_cases i <;> obtain rfl := Option.some.inj hi <;> decide +kernel
  have habsolute : AbsoluteTable absoluteSample.program.memory 0x1010 sampleTargets := by
    have hstop : absoluteSample.program.memory.number? (0x1010 + sampleTargets.length * 4) 4 =
        some 0xffffffff := by decide +kernel
    refine ⟨⟨⟨0, by decide +kernel, by decide⟩, fun i target hi ↦ ?_⟩, fun n hn ↦ ?_⟩
    · have hlt : i < 7 := (List.getElem?_eq_some_iff.mp hi).1
      refine ⟨target.toNat, ?_⟩
      interval_cases i <;> obtain rfl := Option.some.inj hi <;> decide +kernel
    · obtain rfl := Option.some.inj (hstop.symm.trans hn)
      decide +kernel
  have hdescriptor : descriptorOf drawSources relativeSample (libraryOf "x.library") =
      .ok (some drawLibrary) := by rfl
  obtain ⟨hforms, -⟩ := decodeTable_forms drawSources relativeSample absoluteSample "x.library" 0x1010 0x1010
    sampleTargets rfl rfl hin hin' hrelative habsolute
  exact ⟨rfl, rfl, hin, hin', hrelative, habsolute, hforms (some drawLibrary) fun _ ↦ hdescriptor⟩

/-- The functions that a scan finds in a table at the start of the first block, without any descriptors. -/
def listed (blocks : List (Int × List UInt8)) : Except ScanError (List Int) :=
  (run (decodeTable ⟨none, none⟩ "x.library" 0x1000) (ofBlocks blocks)).1.map (List.map Vector.address)

/-- One function in both forms; behind the address there is the end of a block and the start of another. -/
def oneRelative : List (Int × List UInt8) := [(0x1000, [0xff, 0xff, 0, 0, 0xff, 0xff])]

def oneAbsolute : List (Int × List UInt8) := [(0x1000, [0, 0, 0x10, 0]), (0x1004, [0, 0, 0x10, 0])]

/-- No function in both forms; the address outside of memory starts with a word of ones. -/
def noneRelative : List (Int × List UInt8) := [(0x1000, [0xff, 0xff, 0xff, 0xff])]

def noneAbsolute : List (Int × List UInt8) := [(0x1000, [0xff, 0xff, 0, 0])]

/-- The end of a block does not end a table of addresses if another block is right behind it, and a table
without any addresses can be taken for one of distances. -/
theorem decodeTable_reads_on :
    (RelativeTable (ofBlocks oneRelative).memory 0x1000 [0x1000] ∧ listed oneRelative = .ok [0x1000] ∧
      AbsoluteEntries (ofBlocks oneAbsolute).memory 0x1000 [0x1000] ∧
      (∃ region ∈ (ofBlocks oneAbsolute).memory, region.stop = 0x1004) ∧
      listed oneAbsolute = .ok [0x1000, 0x1000]) ∧
    (RelativeTable (ofBlocks noneRelative).memory 0x1000 [] ∧ listed noneRelative = .ok [] ∧
      (ofBlocks noneAbsolute).memory.number? 0x1000 4 = some 0xffff0000 ∧
      ¬ (ofBlocks noneAbsolute).memory.contains 0xffff0000 ∧ listed noneAbsolute = .ok [0x1000]) := by
  have hone : ∀ (i : Nat) (target : Int), [(0x1000 : Int)][i]? = some target → i = 0 ∧ target = 0x1000 := by
    simp [List.getElem?_singleton, eq_comm]
  have hrelative : RelativeTable (ofBlocks oneRelative).memory 0x1000 [0x1000] := by
    refine ⟨by decide +kernel, fun i target hi ↦ ?_, by decide +kernel⟩
    obtain ⟨rfl, rfl⟩ := hone i target hi
    exact ⟨0, by decide +kernel⟩
  have habsolute : AbsoluteEntries (ofBlocks oneAbsolute).memory 0x1000 [0x1000] := by
    refine ⟨⟨0, by decide +kernel, by decide⟩, fun i target hi ↦ ?_⟩
    obtain ⟨rfl, rfl⟩ := hone i target hi
    exact ⟨0x1000, by decide +kernel⟩
  have hnone : RelativeTable (ofBlocks noneRelative).memory 0x1000 [] :=
    ⟨by decide +kernel, fun _ _ hi ↦ (nomatch hi), by decide +kernel⟩
  exact ⟨⟨hrelative, by decide +kernel, habsolute, by decide +kernel, by decide +kernel⟩, hnone,
    by decide +kernel, by decide +kernel, by decide +kernel, by decide +kernel⟩

end Scanner

end Resident

end Hunks
