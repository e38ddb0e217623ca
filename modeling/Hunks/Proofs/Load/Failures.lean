import Mathlib
import Hunks.Proofs.Link.Lookups
import Hunks.Proofs.Load.Answers
import Hunks.Proofs.Load.Notes

namespace Hunks

open Hunks.Action (Common Confined InStep run Tandem)

theorem Host.lookup_filter (operation other : Operation) (limits : List (Operation × Nat)) :
    (limits.filter (·.1 = operation)).lookup other =
      if operation = other then limits.lookup other else none := by
  induction limits with
  | nil => simp
  | cons limit limits ih =>
    obtain ⟨first, n⟩ := limit
    by_cases hfirst : first = operation
    · subst hfirst
      by_cases ho : first = other
      · simp [ho]
      · simpa [ho, List.lookup_cons, beq_false_of_ne (Ne.symm ho)] using ih
    · rw [List.filter_cons_of_neg (by simpa using hfirst), ih]
      by_cases ho : operation = other
      · simp [← ho, List.lookup_cons, beq_false_of_ne (Ne.symm hfirst)]
      · simp [ho]

/-- Errors that come from the input, or from a lookup of a name that fails. -/
def LoadError.OfNames (e : LoadError) : Prop :=
  e.OfInput ∨ e = .host ⟨.lookupGlobal, none, .injected .lookupGlobal⟩

theorem LinkError.OfNames.load {e : LinkError} (h : e.OfNames) : (LoadError.ofLink e).OfNames := by
  rcases h with h | rfl
  · cases e with
    | host e => exact h.elim
    | relocation e => exact Or.inl h
  · exact Or.inr rfl

namespace Loading

variable {ρ : Type} {loader : Loader ρ} {E : LoadError → Prop} {image : Image}

/-- The hosts of two loads count down the same lookups of names. -/
abbrev SameLooks : Loading ρ → Loading ρ → Prop :=
  Common fun n ↦ Has (Host.Looks n)

/-- The hosts of two loads can look for regions. -/
abbrev SparesSearch : Loading ρ → Loading ρ → Prop :=
  Common fun _ : Unit ↦ Has (Host.Spares (· = .getBlock))

theorem SameLooks.sparesSearch (s t : Loading ρ) (h : SameLooks s t) : SparesSearch s t := by
  obtain ⟨n, hs, ht⟩ := h
  exact ⟨(), hs.2, ht.2⟩

theorem lockstep_spares : Host.Lockstep (Host.Same (Host.Spares (· = .getBlock))) :=
  (Host.spares_lasting _).lockstep (fun _ _ h ↦ h) fun _ h ↦ h

/-- A link of two loads fails in both or in none. -/
theorem runLinker_tandem (ho : ∀ segment ∈ image.segments, ∀ reference ∈ segment.references,
      ∀ offset ∈ reference.offsets, 0 ≤ offset)
    (addresses : List Int) (buffers : List Bytes) (base imageEnd : Int) :
    Tandem (SameLooks (ρ := ρ)) SameLooks LoadError.OfNames (fun _ _ ↦ True)
      (runLinker image addresses buffers base imageEnd)
      (runLinker image addresses buffers base imageEnd) := by
  have hreserve : ∀ n store, (reserveSlots (ρ := ρ) store).Confined (Has (Host.Looks n)) fun _ ↦ False :=
    fun n store ↦ confined_of_inStep (reserveSlots_inStep (Host.pliant_looks n).supple trivial)
  rintro s t ⟨n, hs, ht⟩
  obtain ⟨defs, s', hs, hdefs⟩ := (hreserve n _).exists_ok hs
  obtain ⟨refs, s', hs, hrefs⟩ := (hreserve n _).exists_ok hs
  obtain ⟨defs', t', ht, hdefs'⟩ := (hreserve n _).exists_ok ht
  obtain ⟨refs', t', ht, hrefs'⟩ := (hreserve n _).exists_ok ht
  rw [run_runLinker hdefs hrefs, run_runLinker hdefs' hrefs']
  have hlink := Linker.link_tandem addresses imageEnd ho
    { Linker.start s'.host buffers base imageEnd with defs, refs }
    { Linker.start t'.host buffers base imageEnd with defs := defs', refs := refs' }
    ⟨(n, buffers.toArray.map Array.size), ⟨hs, rfl⟩, ht, rfl⟩
  generalize run (Linker.link image addresses imageEnd) _ = p at hlink ⊢
  generalize run (Linker.link image addresses imageEnd) _ = q at hlink ⊢
  cases hlink with
  | ok _ hlast =>
    obtain ⟨shape, hs, ht⟩ := hlast
    exact .ok trivial ⟨shape.1, hs.1, ht.1⟩
  | error he hlast =>
    obtain ⟨shape, hs, ht⟩ := hlast
    exact .error he.load ⟨shape.1, hs.1, ht.1⟩

/-- Behind the link no failure of a host stops a load. -/
theorem load_looks_of_calm (hcalm : ∀ e, ¬ loader.Escapes e) (data : Bytes) :
    Tandem (SameLooks (ρ := ρ)) SparesSearch LoadError.OfNames (fun _ _ ↦ True) (load loader data)
      (load loader data) := by
  refine load_tandem SameLooks.sparesSearch (fun _ ↦ trivial) (fun _ ↦ Or.inl) ?_ ?_ ?_ data
  · intro id segment address data
    have hcreate := fun n ↦ confined_of_inStep (ρ := ρ) (E := fun _ ↦ False)
      (createSegment_inStep (Host.pliant_looks n).supple id segment address data)
    exact .of_confined (fun _ _ ↦ rfl) hcreate hcreate
  · intro image ho addresses buffers imageEnd
    refine Tandem.bind_of_run (runLinker_tandem ho addresses buffers loader.base imageEnd)
      SameLooks.sparesSearch fun _ _ linker linker' _ _ _ _ _ _ ↦ ?_
    have hcomplete := fun linker ↦ confined_of_inStep (ρ := ρ) (E := fun _ ↦ False)
      (complete_inStep lockstep_spares.supple lockstep_spares.growing.grown image addresses linker
        trivial trivial hcalm)
    exact (Tandem.of_confined (fun _ _ ↦ trivial) (fun _ ↦ hcomplete linker)
      fun _ ↦ hcomplete linker').of_imp SameLooks.sparesSearch
  · intro data base
    have hload := confined_of_inStep (ρ := ρ) (E := fun _ ↦ False)
      (loadKickstart_inStep lockstep_spares hcalm data base)
    exact (Tandem.of_confined (fun _ _ ↦ trivial) (fun _ ↦ hload) fun _ ↦ hload).of_imp
      SameLooks.sparesSearch

theorem load_looks (hresolver : loader.resolver = none) (data : Bytes) :
    Tandem (SameLooks (ρ := ρ)) SparesSearch LoadError.OfNames (fun _ _ ↦ True) (load loader data)
      (load loader data) :=
  load_looks_of_calm (Loader.not_escapes hresolver) data

/-- A host on which looking for regions works does not stop a load, but that a lookup of a name fails
while references are resolved: the load gives back a result or says what is wrong with the bytes. What
other operations fail, and when, makes no difference to that. -/
theorem load_survives (types : Catalog) (base : Int) (program : Program)
    (limits : List (Operation × Nat)) (registry : Option Registry) (lookups : ρ) (data : Bytes)
    (h : limits.lookup .getBlock = none) :
    LoopsEnd (ρ := ρ) ⟨some types, none⟩ data ∧
      ((∃ result, (load ⟨types, base, none⟩ data ⟨⟨program, limits⟩, registry, lookups⟩).result =
          .ok result) ∨
        (∃ e, (load ⟨types, base, none⟩ data ⟨⟨program, limits⟩, registry, lookups⟩).result =
          .error (.parse e)) ∨
        (∃ e, (load ⟨types, base, none⟩ data ⟨⟨program, limits⟩, registry, lookups⟩).result =
          .error (.relocation e) ∧ e.OfInput) ∨
        (load ⟨types, base, none⟩ data ⟨⟨program, limits⟩, registry, lookups⟩).result =
          .error (.host ⟨.lookupGlobal, none, .injected .lookupGlobal⟩)) ∧
      ∀ e, (load ⟨types, base, none⟩ data ⟨⟨program, limits⟩, registry, lookups⟩).result = .error e ↔
        (load ⟨types, base, none⟩ data ⟨⟨program, limits.filter (·.1 = .lookupGlobal)⟩, registry,
          lookups⟩).result = .error e := by
  have hspares : ∀ limits : List (Operation × Nat), limits.lookup .getBlock = none →
      Host.Spares (· = .getBlock) ⟨program, limits⟩ := by
    rintro limits h _ rfl
    exact h
  have hlooks : Host.Looks (limits.lookup .lookupGlobal) ⟨program, limits⟩ := ⟨rfl, hspares limits h⟩
  have hfiltered : Host.Looks (limits.lookup .lookupGlobal)
      ⟨program, limits.filter (·.1 = .lookupGlobal)⟩ := by
    refine ⟨?_, hspares _ ?_⟩
    · simp [Host.lookup_filter]
    · simp [Host.lookup_filter]
  have hsame : SameLooks (ρ := ρ) ⟨⟨program, limits⟩, registry, lookups⟩
      ⟨⟨program, limits.filter (·.1 = .lookupGlobal)⟩, registry, lookups⟩ := ⟨_, hlooks, hfiltered⟩
  have hnone : (⟨types, base, none⟩ : Loader ρ).resolver = none := rfl
  have hend := load_looks hnone data _ _ hsame
  refine ⟨loopsEnd _ data, ?_, hend.error_iff⟩
  cases hresult : (load ⟨types, base, none⟩ data ⟨⟨program, limits⟩, registry, lookups⟩).result with
  | ok result => exact Or.inl ⟨result, rfl⟩
  | error e =>
    obtain he | rfl := hend.raises hresult
    · cases e with
      | parse e => exact Or.inr (Or.inl ⟨e, rfl⟩)
      | relocation e => exact Or.inr (Or.inr (Or.inl ⟨e, rfl, he⟩))
      | imageBase base => exact he.elim
      | host e => exact he.elim
      | access e => exact he.elim
      | resolve e => exact he.elim
    · exact Or.inr (Or.inr (Or.inr rfl))

/-- Without memory, labels or functions a load still comes to its end. -/
theorem load_survives_sample :
    let limits : List (Operation × Nat) := [(.createBlock, 0), (.createLabel, 1), (.declareFunction, 0)]
    limits.lookup .getBlock = none ∧
      ∃ result, (load ⟨[], 0x21f000, none⟩ tinyProgram ⟨⟨.empty, limits⟩, none, ()⟩).result =
        .ok result := by
  intro limits
  obtain ⟨-, -, hsame⟩ := load_survives [] 0x21f000 .empty limits none () tinyProgram rfl
  have hplain : (load ⟨[], 0x21f000, none⟩ tinyProgram ⟨⟨.empty, []⟩, none, ()⟩).result.isOk := by
    decide +kernel
  cases hresult : (load ⟨[], 0x21f000, none⟩ tinyProgram ⟨⟨.empty, limits⟩, none, ()⟩).result with
  | ok result => exact ⟨rfl, result, rfl⟩
  | error e =>
    have herror : (load ⟨[], 0x21f000, none⟩ tinyProgram ⟨⟨.empty, []⟩, none, ()⟩).result = .error e :=
      (hsame e).mp hresult
    rw [herror] at hplain
    cases hplain

/-- A host that stops looking for regions after the two of the slots lets its own error through. -/
theorem search_stops_load :
    (load ⟨[], 0x21f000, none⟩ tinyProgram ⟨⟨.empty, []⟩, none, ()⟩).result.isOk ∧
      (load ⟨[], 0x21f000, none⟩ tinyProgram ⟨⟨.empty, [(.getBlock, 2)]⟩, none, ()⟩).result =
        .error (.access (.injected .getBlock)) := by
  decide +kernel

end Loading

end Hunks
