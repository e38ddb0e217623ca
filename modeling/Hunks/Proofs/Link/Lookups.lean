import Mathlib
import Hunks.Proofs.Link.Errors

namespace Hunks

open Hunks.Action (Common Confined Preserves run Tandem)

namespace Host

variable {α : Type} {n : Option Nat} {host : Host} {operation : Operation}

/-- A host that has a number of lookups of names left, without a number as many as are wanted, and on
which looking for a region does not fail. -/
def Looks (n : Option Nat) (host : Host) : Prop :=
  host.limits.lookup .lookupGlobal = n ∧ host.Spares (· = .getBlock)

theorem enter_looks (ho : operation ≠ .lookupGlobal) (n : Option Nat) :
    (enter operation).Preserves (Looks n) := by
  intro host h
  refine ⟨?_, (spares_lasting _).enter operation host h.2⟩
  rw [enter, Action.run_bind, Action.run_get]
  dsimp only
  split
  · exact h.1
  · rw [Action.run_set]
    dsimp only
    rw [lookup_spend, if_neg ho, h.1]
  · exact h.1

theorem createLabel_looks (address : Int) (name origin : String) (n : Option Nat) :
    (createLabel address name origin).Preserves (Looks n) :=
  .bind (enter_looks (by decide) n) fun _ _ h ↦ h

/-- The memory is of no matter. -/
theorem pliant_looks (n : Option Nat) : Pliant (Same (Looks n)) where
  memory _ _ h := by rw [h.1]
  enter operation ho := by
    rintro s _ ⟨rfl, h⟩
    have hne : operation ≠ .lookupGlobal := by
      rintro rfl
      exact absurd ho (by decide)
    exact .of_result_eq rfl ⟨rfl, enter_looks hne n s h⟩ fun _ _ ↦ trivial
  withMemory := by
    rintro s _ memory ⟨rfl, h⟩
    exact ⟨rfl, h⟩

theorem Looks.run_enter (h : host.Looks n) : ∃ last : Host, last.Looks (n.map (· - 1)) ∧
    run (enter .lookupGlobal) host =
      (if n = some 0 then .error (.injected .lookupGlobal) else .ok (), last) := by
  obtain ⟨hn, hs⟩ := h
  rw [enter, Action.run_bind, Action.run_get]
  dsimp only
  rw [hn]
  rcases n with _ | _ | n
  · exact ⟨host, ⟨hn, hs⟩, rfl⟩
  · exact ⟨host, ⟨hn, hs⟩, rfl⟩
  · refine ⟨{ host with limits := spend .lookupGlobal host.limits }, ⟨?_, ?_⟩, rfl⟩
    · dsimp only
      rw [lookup_spend, if_pos rfl, hn]
    · intro operation ho
      dsimp only
      rw [lookup_spend, hs operation ho]
      simp

/-- Hosts that count the same fail to look up a name at the same time. -/
theorem lookupGlobal_tandem (name : String) :
    Tandem (Common Looks) (Common Looks) (· = .injected .lookupGlobal) (fun _ _ ↦ True)
      (lookupGlobal name) (lookupGlobal name) := by
  have henter : Tandem (Common Looks) (Common Looks) (· = .injected .lookupGlobal) (fun _ _ ↦ True)
      (enter .lookupGlobal) (enter .lookupGlobal) := by
    rintro s t ⟨n, hs, ht⟩
    obtain ⟨s', hs', hrs⟩ := hs.run_enter
    obtain ⟨t', ht', hrt⟩ := ht.run_enter
    rw [hrs, hrt]
    split
    · exact .error rfl ⟨_, hs', ht'⟩
    · exact .ok trivial ⟨_, hs', ht'⟩
  exact henter.bind_confined fun _ _ ↦ .bind .get fun _ ↦ .pure _

end Host

/-- Errors that come from the input, or from a lookup of a name that fails. -/
def LinkError.OfNames (e : LinkError) : Prop :=
  e.OfInput ∨ e = .host ⟨.lookupGlobal, none, .injected .lookupGlobal⟩

namespace Linker

/-- A linker with buffers of given sizes whose host has a number of lookups left. -/
def Looks (shape : Option Nat × Array Nat) (linker : Linker) : Prop :=
  linker.host.Looks shape.1 ∧ linker.buffers.map Array.size = shape.2

variable {shape : Option Nat × Array Nat} {α : Type}

theorem lookup_tandem (name : String) :
    Tandem (Common Looks) (Common Looks) LinkError.OfNames (fun _ _ ↦ True) (lookup name)
      (lookup name) := by
  have hcall : Tandem (Common Host.Looks) (Common Host.Looks) LinkError.OfNames (fun _ _ ↦ True)
      ((Host.call .lookupGlobal none (Host.lookupGlobal name)).mapError .host)
      ((Host.call .lookupGlobal none (Host.lookupGlobal name)).mapError .host) := by
    refine Tandem.mapError (E := fun e ↦ e = ⟨.lookupGlobal, none, .injected .lookupGlobal⟩) ?_ ?_
    · refine (Host.lookupGlobal_tandem name).mapError ?_
      rintro _ rfl
      rfl
    · rintro _ rfl
      exact Or.inr rfl
  rintro s t ⟨shape, hs, ht⟩
  rw [lookup, onHost, Action.run_focus, Action.run_focus]
  have hend := hcall s.host t.host ⟨shape.1, hs.1, ht.1⟩
  generalize run _ s.host = p at hend
  generalize run _ t.host = q at hend
  cases hend with
  | ok _ h =>
    obtain ⟨n, hs', ht'⟩ := h
    exact .ok trivial ⟨(n, shape.2), ⟨hs', hs.2⟩, ht', ht.2⟩
  | error he h =>
    obtain ⟨n, hs', ht'⟩ := h
    exact .error he ⟨(n, shape.2), ⟨hs', hs.2⟩, ht', ht.2⟩

theorem label_confined (address : Int) (name origin : String) (shape : Option Nat × Array Nat) :
    (label address name origin).Confined (Looks shape) fun _ ↦ False := by
  constructor
  · intro linker h
    rw [run_label_eq]
    exact ⟨Host.createLabel_looks address name origin _ _ h.1, h.2⟩
  · intro linker _ e he
    rw [run_label_eq] at he
    cases he

theorem defineAbsolute_tandem (name : String) (value : Int) :
    Tandem (Common Looks) (Common Looks) LinkError.OfNames (fun _ _ ↦ True)
      (defineAbsolute name value) (defineAbsolute name value) := by
  refine (lookup_tandem name).bind_confined fun shape found ↦ ?_
  split
  · exact .pure _
  · refine .bind .get fun linker ↦ ?_
    split
    · exact .pure _
    · refine .bind .get fun linker ↦ .bind (.modify fun _ h ↦ h) fun _ ↦ .bind (.report _ _) fun _ ↦ ?_
      exact .bind (label_confined _ _ _ _) fun _ ↦ .pure _

theorem define_tandem (name : String) (address : Int) :
    Tandem (Common Looks) (Common Looks) LinkError.OfNames (fun _ _ ↦ True) (define name address)
      (define name address) := by
  refine (lookup_tandem name).bind_confined fun shape found ↦ ?_
  split
  · split
    · exact .bind (.report _ _) fun _ ↦ .pure _
    · exact .pure _
  · exact .bind (label_confined _ _ _ _) fun _ ↦ .pure _

theorem resolve_tandem (name : String) :
    Tandem (Common Looks) (Common Looks) LinkError.OfNames (fun _ _ ↦ True) (resolve name)
      (resolve name) := by
  refine (lookup_tandem name).bind_confined fun shape found ↦ ?_
  split
  · exact .pure _
  · refine .bind .get fun linker ↦ ?_
    split
    · exact .pure _
    · refine .bind .get fun linker ↦ .bind (.modify fun _ h ↦ h) fun _ ↦ .bind (.report _ _) fun _ ↦ ?_
      exact .bind (label_confined _ _ _ _) fun _ ↦ .pure _

/-- Whether a patch has room does not depend on what it writes. -/
theorem patch_tandem (imageEnd address target target' : Int) {offset : Int} (id : Nat)
    (reference : Reference) (ho : 0 ≤ offset) :
    Tandem (Common Looks) (Common Looks) LinkError.OfNames (fun _ _ ↦ True)
      (patch imageEnd address id reference target offset)
      (patch imageEnd address id reference target' offset) := by
  rintro s t ⟨shape, hs, ht⟩
  rw [run_patch_eq ho, run_patch_eq ho, Bytes.size_getD (hs.2.trans ht.2.symm) id]
  split
  · exact .error (Or.inl trivial) ⟨shape, hs, ht⟩
  · refine .ok trivial ⟨shape, ⟨hs.1, ?_⟩, ht.1, ?_⟩
    · exact (Bytes.sizes_modify ..).trans hs.2
    · exact (Bytes.sizes_modify ..).trans ht.2

theorem addDefinition_tandem (address : Int) (definition : Definition) :
    Tandem (Common Looks) (Common Looks) LinkError.OfNames (fun _ _ ↦ True)
      (addDefinition address definition) (addDefinition address definition) := by
  rw [addDefinition]
  split
  · exact (defineAbsolute_tandem _ _).bind_confined fun _ _ ↦ .pure _
  · refine (define_tandem _ _).bind_confined fun shape known ↦ .bind .get fun linker ↦ ?_
    split
    · exact .modify fun _ h ↦ h
    · exact .pure _

theorem addReference_tandem (imageEnd address : Int) (id : Nat) {reference : Reference}
    (ho : ∀ offset ∈ reference.offsets, 0 ≤ offset) :
    Tandem (Common Looks) (Common Looks) LinkError.OfNames (fun _ _ ↦ True)
      (addReference imageEnd address id reference) (addReference imageEnd address id reference) :=
  (resolve_tandem _).bind fun target target' _ ↦ .forEach fun offset hm ↦
    patch_tandem imageEnd address target target' id reference (ho offset hm)

/-- Linkers that count the same fail at the same reference or at the same lookup, whatever else their
hosts do. -/
theorem link_tandem {image : Image} (addresses : List Int) (imageEnd : Int)
    (ho : ∀ segment ∈ image.segments, ∀ reference ∈ segment.references,
      ∀ offset ∈ reference.offsets, 0 ≤ offset) :
    Tandem (Common Looks) (Common Looks) LinkError.OfNames (fun _ _ ↦ True)
      (link image addresses imageEnd) (link image addresses imageEnd) := by
  refine .forEach fun ⟨segment, id⟩ hm ↦ ?_
  refine (Tandem.forEach fun definition _ ↦ addDefinition_tandem _ definition).bind fun _ _ _ ↦ ?_
  refine .forEach fun reference hreference ↦ addReference_tandem imageEnd _ id ?_
  exact ho segment (List.fst_mem_of_mem_zipIdx hm) reference hreference

end Linker

end Hunks
