import Mathlib
import Hunks.Proofs.Host.Twins
import Hunks.Proofs.Link
import Hunks.Proofs.Relocation.Errors

namespace Hunks

open Hunks.Action (run InStep Relates)

def LinkError.OfInput : LinkError → Prop
  | .host _ => False
  | .relocation e => e.OfInput

namespace Linker

variable {P : Host → Prop} {R : Host → Host → Prop} {E : LinkError → Prop} {α : Type}

/-- Two linkers on hosts in a relation, with nothing else that differs. -/
def Both (R : Host → Host → Prop) (first second : Linker) : Prop :=
  ∃ host, R first.host host ∧ second = { first with host }

/-- Hosts that tell a linker the same about names, and a link may fail because of references. -/
structure Binding (R : Host → Host → Prop) (E : LinkError → Prop) : Prop where
  lookup : ∀ name, (lookup name).InStep (Both R) E
  createLabel : ∀ address name origin, (Host.createLabel address name origin).Relates R
  reference : ∀ name id offset, E (.relocation (.reference name id offset))

theorem lookup_inStep (h : ∀ name, (Host.lookupGlobal name).InStep R fun _ ↦ False) (name : String) :
    (lookup name).InStep (Both R) E := by
  refine .focus (.mapError (E := fun _ ↦ False) (.mapError (h name) fun _ he ↦ he) fun _ he ↦ he.elim)
    ?_ ?_
  · rintro s _ ⟨host, h, rfl⟩
    exact h
  · rintro a b s _ hab ⟨host, -, rfl⟩
    exact ⟨b, hab, rfl⟩

/-- Hosts that do not fail leave errors of the input only. -/
theorem binding_of_stable (hP : Host.Stable P) : Binding (Host.Same P) LinkError.OfInput where
  lookup name := by
    refine lookup_inStep (fun name ↦ ?_) name
    rintro host _ ⟨rfl, h⟩
    rw [Host.run_lookupGlobal (hP.reliable host h)]
    exact .ok rfl ⟨rfl, h⟩
  createLabel := hP.lasting.noting.createLabel
  reference _ _ _ := trivial

theorem run_label_eq (address : Int) (name origin : String) (linker : Linker) :
    run (label address name origin) linker =
      (.ok (), { linker with host := (run (Host.createLabel address name origin) linker.host).2 }) := by
  rw [label, Action.run_bind, Action.run_attempt, run_onHost]
  dsimp only
  cases (run (Host.createLabel address name origin) linker.host).1 <;> rfl

theorem modify_inStep {f : Linker → Linker}
    (hf : ∀ (linker : Linker) host, f { linker with host } = { f linker with host }) :
    Action.InStep (Both R) E (modify f : Link PUnit) := by
  refine .modify ?_
  rintro s _ ⟨host, h, rfl⟩
  refine ⟨host, ?_, hf s host⟩
  rwa [congrArg Linker.host (hf s s.host)]

/-- A patch is made in its buffer, or there is no room for it. -/
theorem run_patch_eq {imageEnd address target offset : Int} {id : Nat} {reference : Reference}
    (ho : 0 ≤ offset) (linker : Linker) :
    run (patch imageEnd address id reference target offset) linker =
      if (linker.buffers.getD id #[]).size < offset + reference.width.bytes then
        (.error (.relocation (.reference reference.name id offset)), linker)
      else
        (.ok (), { linker with
          buffers := linker.buffers.modify id (Bytes.overwrite · offset.toNat
            (Bytes.ofInt reference.width.bytes
              (patchValue reference.kind target (address + offset) imageEnd))) }) := by
  rw [patch, Action.run_bind, Action.run_get]
  dsimp only
  split <;> rename_i hsize
  · rfl
  · have hplace : Bytes.place? (linker.buffers.getD id #[]) offset reference.width.bytes =
        some offset.toNat := Bytes.place?_eq ho (not_lt.mp hsize)
    rw [Action.run_bind_ok (Action.run_debug ..), Action.run_bind, Action.run_get]
    dsimp only
    rw [hplace]
    rfl

section Chain

variable (hR : Binding R E)
include hR

theorem label_inStep (address : Int) (name origin : String) :
    (label address name origin).InStep (Both R) E := by
  rintro s _ ⟨host, h, rfl⟩
  rw [run_label_eq, run_label_eq]
  exact .ok rfl ⟨_, hR.createLabel address name origin _ _ h, rfl⟩

theorem defineAbsolute_inStep (name : String) (value : Int) :
    (defineAbsolute name value).InStep (Both R) E := by
  refine .bind (hR.lookup name) fun found ↦ ?_
  split
  · exact .pure _
  · refine .get_bind (fun s _ ⟨host, _, h⟩ ↦ by rw [h]) fun linker ↦ ?_
    split
    · exact .pure _
    · refine .get_bind (fun s _ ⟨host, _, h⟩ ↦ by rw [h]) fun linker ↦ ?_
      refine .bind (modify_inStep fun _ _ ↦ rfl) fun _ ↦ .bind (.report _ _) fun _ ↦ ?_
      exact .bind (label_inStep hR _ _ _) fun _ ↦ .pure _

theorem define_inStep (name : String) (address : Int) : (define name address).InStep (Both R) E := by
  refine .bind (hR.lookup name) fun found ↦ ?_
  split
  · split
    · exact .bind (.report _ _) fun _ ↦ .pure _
    · exact .pure _
  · exact .bind (label_inStep hR _ _ _) fun _ ↦ .pure _

theorem resolve_inStep (name : String) : (resolve name).InStep (Both R) E := by
  refine .bind (hR.lookup name) fun found ↦ ?_
  split
  · exact .pure _
  · refine .get_bind (fun s _ ⟨host, _, h⟩ ↦ by rw [h]) fun linker ↦ ?_
    split
    · exact .pure _
    · refine .get_bind (fun s _ ⟨host, _, h⟩ ↦ by rw [h]) fun linker ↦ ?_
      refine .bind (modify_inStep fun _ _ ↦ rfl) fun _ ↦ .bind (.report _ _) fun _ ↦ ?_
      exact .bind (label_inStep hR _ _ _) fun _ ↦ .pure _

theorem patch_inStep {imageEnd address target offset : Int} {id : Nat} {reference : Reference}
    (ho : 0 ≤ offset) : (patch imageEnd address id reference target offset).InStep (Both R) E := by
  rintro s _ ⟨host, h, rfl⟩
  rw [run_patch_eq ho, run_patch_eq ho]
  dsimp only
  split
  · exact .error (hR.reference _ _ _) ⟨host, h, rfl⟩
  · exact .ok rfl ⟨host, h, rfl⟩

theorem addDefinition_inStep (address : Int) (definition : Definition) :
    (addDefinition address definition).InStep (Both R) E := by
  rw [addDefinition]
  split
  · exact .bind (defineAbsolute_inStep hR _ _) fun _ ↦ .pure _
  · refine .bind (define_inStep hR _ _) fun known ↦ .get_bind (fun s _ h ↦ ?_) fun linker ↦ ?_
    · obtain ⟨host, _, h⟩ := h
      rw [h]
    split
    · exact modify_inStep fun _ _ ↦ rfl
    · exact .pure _

theorem addReference_inStep (imageEnd address : Int) (id : Nat) {reference : Reference}
    (ho : ∀ offset ∈ reference.offsets, 0 ≤ offset) :
    (addReference imageEnd address id reference).InStep (Both R) E :=
  .bind (resolve_inStep hR _) fun _ ↦ .forEach fun offset hm ↦ patch_inStep hR (ho offset hm)

/-- How the names are bound depends on what the host says about them, and a link only fails because of
references. -/
theorem link_inStep {image : Image} (addresses : List Int) (imageEnd : Int)
    (ho : ∀ segment ∈ image.segments, ∀ reference ∈ segment.references,
      ∀ offset ∈ reference.offsets, 0 ≤ offset) :
    (link image addresses imageEnd).InStep (Both R) E := by
  refine .forEach fun ⟨segment, id⟩ hm ↦ ?_
  refine .bind (.forEach fun definition _ ↦ addDefinition_inStep hR _ definition) fun _ ↦ ?_
  refine .forEach fun reference hreference ↦ addReference_inStep hR imageEnd _ id ?_
  exact ho segment (List.fst_mem_of_mem_zipIdx hm) reference hreference

end Chain

end Linker

end Hunks
