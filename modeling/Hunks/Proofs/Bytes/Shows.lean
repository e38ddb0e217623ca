import Mathlib
import Hunks.Proofs.Bytes

namespace Hunks

namespace Bytes

variable {data : Bytes} {start : Nat} {bytes more : List UInt8}

/-- The bytes stand at a place of the data. -/
def Shows (data : Bytes) (start : Nat) (bytes : List UInt8) : Prop :=
  bytes <+: data.toList.drop start

theorem shows_toArray (bytes : List UInt8) : Shows bytes.toArray 0 bytes :=
  List.prefix_refl bytes

theorem Shows.left (h : data.Shows start (bytes ++ more)) : data.Shows start bytes :=
  (List.prefix_append bytes more).trans h

theorem Shows.right (h : data.Shows start (bytes ++ more)) : data.Shows (start + bytes.length) more := by
  obtain ⟨rest, hrest⟩ := h
  refine ⟨rest, ?_⟩
  rw [← List.drop_drop, ← hrest, List.append_assoc, List.drop_left]

theorem Shows.extract_eq (h : data.Shows start bytes) :
    (data.extract start (start + bytes.length)).toList = bytes := by
  obtain ⟨rest, hrest⟩ := h
  rw [Array.toList_extract, List.extract, Nat.add_sub_cancel_left, ← hrest, List.take_left]

/-- Parts of one length follow each other at its multiples. -/
theorem Shows.part {α : Type} {f : α → List UInt8} {size : Nat} (hf : ∀ a, (f a).length = size) {as : List α}
    (h : data.Shows start (as.flatMap f)) {i : Nat} {a : α} (ha : as[i]? = some a) :
    data.Shows (start + size * i) (f a) := by
  induction as generalizing start i with
  | nil => simp at ha
  | cons first as ih =>
    rw [List.flatMap_cons] at h
    cases i with
    | zero =>
      simp only [List.getElem?_cons_zero, Option.some.injEq] at ha
      rw [← ha]
      exact h.left
    | succ i =>
      have hpart := ih (hf first ▸ h.right) (by simpa using ha)
      rwa [Nat.mul_succ, Nat.add_comm _ size, ← Nat.add_assoc]

theorem length_flatMap_parts {α : Type} {f : α → List UInt8} {size : Nat} (hf : ∀ a, (f a).length = size)
    (as : List α) : (as.flatMap f).length = size * as.length := by
  simp [List.length_flatMap, hf, Nat.mul_comm]

end Bytes

end Hunks
