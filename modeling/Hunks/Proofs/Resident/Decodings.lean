import Mathlib
import Hunks.Proofs.Resident.Tables

namespace Hunks

open Hunks.Action (run)

namespace Registry

theorem get?_cons (name library : String) (descriptor : Descriptor) (registry : Registry) :
    get? ((name, descriptor) :: registry) library =
      if name = library then some descriptor else registry.get? library := by
  rw [get?, List.lookup_cons]
  by_cases h : name = library
  · simp [h]
  · simp [h, get?, beq_eq_false_iff_ne.mpr (Ne.symm h)]

theorem get?_add (registry : Registry) (descriptor : Descriptor) (library : String) :
    (registry.add descriptor).get? library =
      if descriptor.library = library then some descriptor else registry.get? library := by
  induction registry with
  | nil => rw [add, get?_cons]
  | cons entry registry ih =>
    obtain ⟨name, other⟩ := entry
    rw [add, get?_cons]
    by_cases hname : name = descriptor.library
    · rw [if_pos hname, get?_cons, ← hname]
      split <;> rfl
    · rw [if_neg hname, get?_cons, ih]
      by_cases h : name = library
      · rw [if_pos h, if_pos h, if_neg (h ▸ Ne.symm hname)]
      · rw [if_neg h, if_neg h]

/-- With one more descriptor, if there is one. -/
def including (registry : Registry) (found? : Option Descriptor) : Registry :=
  found?.elim registry registry.add

@[simp] theorem including_none (registry : Registry) : registry.including none = registry := rfl

@[simp] theorem including_some (registry : Registry) (descriptor : Descriptor) :
    registry.including (some descriptor) = registry.add descriptor := rfl

end Registry

namespace Resident

variable {ρ : Type}

/-- A library that a resolver was asked for, and what it answered. -/
structure Request where
  library : String
  answer : Except ResolveError (Option Descriptor)

def Request.descriptor? (request : Request) : Option Descriptor :=
  match request.answer with
  | .ok found => found
  | .error _ => none

/-- What a scan keeps about descriptors, with the requests made so far. -/
structure Desk where
  registry : Registry
  requests : List Request
  diagnostics : List Diagnostic

/-- The functions of a library in the order of a table. -/
structure Decoding where
  library : String
  table : Int
  vectors : List Vector

/-- One decoding of a table, and what is on the desk before and after it. An error of the host leaves it
with the functions up to there. -/
structure Stage where
  before : Desk
  decoding : Decoding
  request? : Option Request
  isFinished : Bool
  after : Desk

/-- The descriptor that the request of a decoding brings. -/
def Stage.obtained? (stage : Stage) : Option Descriptor :=
  stage.request?.bind Request.descriptor?

/-- The descriptor that a decoding goes by. -/
def Stage.supplied? (stage : Stage) : Option Descriptor :=
  (stage.before.registry.get? stage.decoding.library).or stage.obtained?

/-- A table has a function behind the standard ones. -/
def Decoding.IsLong (decoding : Decoding) : Prop :=
  standardVectors.length < decoding.vectors.length

/-- What a table with a function behind the standard ones makes of the desk. Its library is asked for if the
registry lacks it and nobody has asked for it; if there still is no descriptor, this is recorded. -/
structure Stage.Settles (sources : Sources ρ) (stage : Stage) : Prop where
  requested : stage.request?.isSome ↔ sources.resolver.isSome ∧
    stage.before.registry.get? stage.decoding.library = none ∧
    ∀ request ∈ stage.before.requests, request.library ≠ stage.decoding.library
  answered : ∀ request ∈ stage.request?, request.library = stage.decoding.library ∧
    ∃ resolver ∈ sources.resolver, ∃ lookups, request.answer = (run (resolver request.library) lookups).1
  requests : stage.after.requests = stage.before.requests ++ stage.request?.toList
  registry : stage.after.registry = stage.before.registry.including stage.obtained?
  diagnostics : stage.after.diagnostics = stage.before.diagnostics ++
    if stage.supplied? = none then
      [⟨.descriptorMissing, stage.decoding.library, stage.decoding.table⟩]
    else []

/-- The desk changes as the functions in a table demand. -/
structure Stage.Keeps (sources : Sources ρ) (stage : Stage) : Prop where
  short : ¬ stage.decoding.IsLong → stage.request? = none ∧ stage.after = stage.before
  long : stage.decoding.IsLong → stage.Settles sources

/-- A decoding that goes on with one more function. -/
def Stage.next (stage : Stage) (request? : Option Request) (after : Desk) (target : Int) : Stage :=
  let supplied? := (stage.before.registry.get? stage.decoding.library).or (request?.bind Request.descriptor?)
  let vector := Scanner.vectorAt supplied? stage.decoding.vectors.length target
  let decoding := { stage.decoding with vectors := stage.decoding.vectors ++ [vector] }
  { stage with decoding, request?, after }

/-- The functions have the names that the descriptor says, and the desk changes as they demand. -/
structure Stage.Sound (sources : Sources ρ) (stage : Stage) : Prop extends stage.Keeps sources where
  lists : Scanner.Lists stage.supplied? (stage.decoding.vectors.map Vector.address) stage.decoding.vectors

/-- Decodings one after the other, with nothing that changes the desk between them. -/
inductive History (sources : Sources ρ) : Desk → List Stage → Desk → Prop
  | nil (desk : Desk) : History sources desk [] desk
  | cons {stage : Stage} {stages : List Stage} {desk : Desk} : stage.Sound sources →
    History sources stage.after stages desk → History sources stage.before (stage :: stages) desk

variable {sources : Sources ρ} {stage earlier later : Stage} {stages front between rest : List Stage}
  {desk middle start : Desk} {descriptor : Descriptor} {library : String}

namespace Stage

theorem Keeps.requests (h : stage.Keeps sources) :
    stage.after.requests = stage.before.requests ++ stage.request?.toList := by
  by_cases hlong : stage.decoding.IsLong
  · exact (h.long hlong).requests
  · obtain ⟨hnone, hafter⟩ := h.short hlong
    rw [hnone, hafter, Option.toList_none, List.append_nil]

theorem Keeps.registry (h : stage.Keeps sources) :
    stage.after.registry = stage.before.registry.including stage.obtained? := by
  by_cases hlong : stage.decoding.IsLong
  · exact (h.long hlong).registry
  · obtain ⟨hnone, hafter⟩ := h.short hlong
    rw [obtained?, hnone, hafter]
    rfl

theorem Keeps.of_request (h : stage.Keeps sources) {request : Request} (hr : stage.request? = some request) :
    stage.decoding.IsLong ∧ stage.before.registry.get? stage.decoding.library = none ∧
      (∀ other ∈ stage.before.requests, other.library ≠ stage.decoding.library) ∧
      request.library = stage.decoding.library := by
  have hlong : stage.decoding.IsLong := by
    by_contra hshort
    exact Option.some_ne_none request (hr.symm.trans (h.short hshort).1)
  obtain ⟨-, hget, hfresh⟩ := (h.long hlong).requested.mp (by rw [hr]; rfl)
  exact ⟨hlong, hget, hfresh, ((h.long hlong).answered request hr).1⟩

/-- A descriptor comes from a request of its decoding. -/
theorem request_of_obtained (h : stage.obtained? = some descriptor) :
    ∃ request, stage.request? = some request ∧ request.descriptor? = some descriptor :=
  Option.bind_eq_some_iff.mp h

/-- Where there is no descriptor behind the standard functions, the library has been asked for. -/
theorem Settles.asked (h : stage.Settles sources) (hnone : stage.supplied? = none)
    (hsome : sources.resolver.isSome) :
    ∃ request ∈ stage.after.requests, request.library = stage.decoding.library := by
  rw [h.requests]
  cases hr : stage.request? with
  | some request =>
    exact ⟨request, List.mem_append_right _ List.mem_cons_self, (h.answered request hr).1⟩
  | none =>
    have hget : stage.before.registry.get? stage.decoding.library = none := (Option.or_eq_none_iff.mp hnone).1
    have hasked : ¬ ∀ request ∈ stage.before.requests, request.library ≠ stage.decoding.library :=
      fun hfresh ↦ by simpa [hr] using h.requested.mpr ⟨hsome, hget, hfresh⟩
    push Not at hasked
    obtain ⟨request, hm, hlibrary⟩ := hasked
    exact ⟨request, List.mem_append_left _ hm, hlibrary⟩

/-- A decoding is at a later place of the same table. -/
structure Onward (stage stage' : Stage) : Prop where
  before : stage'.before = stage.before
  library : stage'.decoding.library = stage.decoding.library
  table : stage'.decoding.table = stage.decoding.table
  isFinished : stage'.isFinished = stage.isFinished

theorem Onward.refl (stage : Stage) : stage.Onward stage :=
  ⟨rfl, rfl, rfl, rfl⟩

theorem Onward.trans {stage stage' stage'' : Stage} (h : stage.Onward stage') (h' : stage'.Onward stage'') :
    stage.Onward stage'' :=
  ⟨h'.before.trans h.before, h'.library.trans h.library, h'.table.trans h.table,
    h'.isFinished.trans h.isFinished⟩

/-- What is obtained stands in the registry behind the decoding. -/
theorem Keeps.get?_of_obtained (h : stage.Keeps sources) (hobtained : stage.obtained? = some descriptor) :
    stage.after.registry.get? descriptor.library = some descriptor := by
  rw [h.registry, hobtained]
  exact (Registry.get?_add ..).trans (if_pos rfl)

/-- The registry loses nothing to a decoding that obtains no descriptor of the same name. -/
theorem Keeps.get?_after (h : stage.Keeps sources)
    (hother : ∀ descriptor, stage.obtained? = some descriptor → descriptor.library ≠ library) :
    stage.after.registry.get? library = stage.before.registry.get? library := by
  rw [h.registry]
  cases hobtained : stage.obtained? with
  | none => rfl
  | some descriptor => exact (Registry.get?_add ..).trans (if_neg (hother descriptor hobtained))

end Stage

namespace History

theorem append {more : List Stage} (h : History sources start stages middle)
    (hmore : History sources middle more desk) : History sources start (stages ++ more) desk := by
  induction h with
  | nil desk => exact hmore
  | cons hstage _ ih => exact .cons hstage (ih hmore)

theorem of_append (h : History sources start (front ++ rest) desk) :
    ∃ middle, History sources start front middle ∧ History sources middle rest desk := by
  induction front generalizing start with
  | nil => exact ⟨start, .nil start, h⟩
  | cons stage front ih =>
    cases h with
    | cons hstage h =>
      obtain ⟨middle, hfront, hrest⟩ := ih h
      exact ⟨middle, .cons hstage hfront, hrest⟩

theorem single (h : stage.Sound sources) : History sources stage.before [stage] stage.after :=
  .cons h (.nil _)

theorem requests (h : History sources start stages desk) :
    desk.requests = start.requests ++ stages.filterMap Stage.request? := by
  induction h with
  | nil desk => exact (List.append_nil _).symm
  | @cons stage stages desk hstage _ ih =>
    rw [ih, hstage.requests, List.filterMap_cons, List.append_assoc]
    cases stage.request? <;> rfl

/-- Nobody is asked for a library again. -/
theorem nodup (h : History sources start stages desk) (hnodup : (start.requests.map Request.library).Nodup) :
    (desk.requests.map Request.library).Nodup := by
  -- a request is sound only if none was made for its library before
  induction h with
  | nil desk => exact hnodup
  | @cons stage stages desk hstage _ ih =>
    refine ih ?_
    rw [hstage.requests]
    cases hr : stage.request? with
    | none => rwa [Option.toList_none, List.append_nil]
    | some request =>
      obtain ⟨-, -, hfresh, hlibrary⟩ := hstage.of_request hr
      rw [Option.toList_some, List.map_append, List.nodup_append]
      refine ⟨hnodup, List.nodup_singleton _, ?_⟩
      rintro _ hasked _ hname rfl
      obtain ⟨other, hother, hsame⟩ := List.mem_map.mp hasked
      rw [List.map_singleton, List.mem_singleton, hlibrary] at hname
      exact hfresh other hother (hsame.trans hname)

/-- What the registry says about a library lasts until another descriptor of that name is obtained. -/
theorem get?_eq (h : History sources start stages desk)
    (hother : ∀ stage ∈ stages, ∀ descriptor, stage.obtained? = some descriptor →
      descriptor.library ≠ library) :
    desk.registry.get? library = start.registry.get? library := by
  induction h with
  | nil desk => rfl
  | cons hstage _ ih =>
    obtain ⟨hfirst, hrest⟩ := List.forall_mem_cons.mp hother
    exact (ih hrest).trans (hstage.get?_after hfirst)

/-- Behind a request no further one is for its library. -/
theorem ne_of_asked (h : History sources start stages desk)
    (hasked : ∃ request ∈ start.requests, request.library = library) {request : Request} (hm : stage ∈ stages)
    (hr : stage.request? = some request) : stage.decoding.library ≠ library := by
  obtain ⟨asked, hm', rfl⟩ := hasked
  induction h with
  | nil desk => cases hm
  | cons hstage _ ih =>
    rcases List.mem_cons.mp hm with rfl | hm
    · exact ((hstage.of_request hr).2.2.1 asked hm').symm
    · refine ih hm ?_
      rw [hstage.requests]
      exact List.mem_append_left _ hm'

/-- A descriptor that carries the name it was requested for serves the later decodings for the library, as
long as no request for another library brings one of that name. -/
theorem supplied (h : History sources start (front ++ earlier :: between ++ later :: rest) desk)
    (hobtained : earlier.obtained? = some descriptor) (hname : descriptor.library = earlier.decoding.library)
    (hsame : later.decoding.library = earlier.decoding.library)
    (hbetween : ∀ stage ∈ between, ∀ other, stage.obtained? = some other →
      other.library = earlier.decoding.library → stage.decoding.library = earlier.decoding.library) :
    later.supplied? = some descriptor := by
  rw [List.append_assoc, List.cons_append] at h
  obtain ⟨_, -, h⟩ := h.of_append
  cases h with | cons hearlier h => ?_
  obtain ⟨_, hmiddle, h⟩ := h.of_append
  cases h with | cons hlater _ => ?_
  obtain ⟨request, hr, -⟩ := Stage.request_of_obtained hobtained
  have hasked : ∃ request ∈ earlier.after.requests, request.library = earlier.decoding.library := by
    refine ⟨request, ?_, (hearlier.of_request hr).2.2.2⟩
    rw [hearlier.requests, hr]
    exact List.mem_append_right _ List.mem_cons_self
  have hkept : later.before.registry.get? earlier.decoding.library = some descriptor := by
    rw [← hname, ← hearlier.get?_of_obtained hobtained]
    refine hmiddle.get?_eq fun stage hm other hother hlibrary ↦ ?_
    obtain ⟨_, hr', -⟩ := Stage.request_of_obtained hother
    exact hmiddle.ne_of_asked hasked hm hr' (hbetween stage hm other hother (hlibrary.trans hname))
  rw [Stage.supplied?, hsame, hkept, Option.some_or]

end History

end Resident

end Hunks
