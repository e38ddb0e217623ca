import Mathlib
import Hunks.Proofs.Confined
import Hunks.Proofs.Relocation.Faults

namespace Hunks

open Hunks.Action (Confined)

/-- Errors about what an input asks for. Too few addresses are a fault of the caller, and there is no
input with an offset in front of its segment. -/
def RelocationError.OfInput : RelocationError → Prop
  | unknownTarget .. | outOfBounds .. | reference .. => True
  | addressCount .. | beforeStart .. => False

/-- Errors about the relocations of an input. -/
def RelocationError.OfRelocations : RelocationError → Prop
  | unknownTarget .. | outOfBounds .. => True
  | reference .. | addressCount .. | beforeStart .. => False

theorem RelocationError.OfRelocations.ofInput {e : RelocationError} (h : e.OfRelocations) :
    e.OfInput := by
  cases e with
  | unknownTarget hunk target => trivial
  | outOfBounds hunk offset width size => trivial
  | reference name hunk offset => exact h.elim
  | addressCount addresses segments => exact h.elim
  | beforeStart hunk offset => exact h.elim

namespace Segment

theorem Fault.ofRelocations {segment : Segment} {count id : Nat} {e : RelocationError}
    (h : segment.Fault count id e) : e.OfRelocations := by
  cases h with
  | unknown _ => trivial
  | outside _ _ _ _ => trivial

end Segment

namespace Image

variable {data : Bytes} {hunks : List Hunk} {image : Image}

/-- An image that was read has an address for each segment, so its relocation only fails because of
its relocations. -/
theorem relocate_confined (hi : IsRead data hunks image) (base padding : Int) :
    (image.relocate (image.layout base padding)).Confined (fun _ ↦ True)
      RelocationError.OfRelocations := by
  rw [relocate]
  refine .guard (fun hne ↦ absurd (length_layout image base padding).symm hne) fun _ ↦ ?_
  refine .bind (.foldl (fun done segment hm ↦ ?_) _) fun _ ↦ .pure _
  obtain ⟨hunk, kind, stored, hrange, -, rfl⟩ := hi.of_mem hm
  refine .bind (.ofExcept fun e he ↦ (Segment.relocate_fault hrange he).ofRelocations) fun buffer ↦ ?_
  split
  · exact .bind (.report _ _) fun _ ↦ .pure _
  · exact .pure _

end Image

end Hunks
