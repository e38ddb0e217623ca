import Mathlib
import Hunks.Proofs.Bytes

namespace Hunks

/-- A range of places in a content. -/
structure Span where
  start : Nat
  length : Nat
  deriving DecidableEq, Repr

namespace Span

def Covers (span : Span) (i : Nat) : Prop :=
  span.start ≤ i ∧ i < span.start + span.length

def Apart (span other : Span) : Prop :=
  span.start + span.length ≤ other.start ∨ other.start + other.length ≤ span.start

instance (span : Span) (i : Nat) : Decidable (span.Covers i) :=
  inferInstanceAs (Decidable (_ ∧ _))

instance (span other : Span) : Decidable (span.Apart other) :=
  inferInstanceAs (Decidable (_ ∨ _))

theorem Apart.not_covers {span other : Span} (h : span.Apart other) {i : Nat}
    (hi : span.Covers i) : ¬ other.Covers i := by
  unfold Apart Covers at *
  omega

end Span

namespace Bytes

variable {data data' data'' : Bytes} {span : Span} {spans more : List Span}

/-- The bytes at a range. -/
def sub (data : Bytes) (span : Span) : List UInt8 :=
  (data.extract span.start (span.start + span.length)).toList

/-- The number at a range, the most significant byte first. -/
def field (data : Bytes) (span : Span) : Nat :=
  toNat (data.sub span)

theorem sub_overwrite {start : Nat} {bytes : List UInt8} (h : start + bytes.length ≤ data.size) :
    (overwrite data start bytes).sub ⟨start, bytes.length⟩ = bytes :=
  extract_overwrite data h

theorem field_lt (data : Bytes) (span : Span) : data.field span < 2 ^ (8 * span.length) := by
  have hlength : (data.sub span).length ≤ span.length := by
    rw [sub, Array.length_toList, Array.size_extract]
    omega
  refine (toNat_lt _).trans_le ?_
  rw [modulus_eq]
  exact Nat.pow_le_pow_right (by decide) (by omega)

theorem field?_eq {offset : Int} {size : Nat} (ho : 0 ≤ offset) (hs : offset + size ≤ data.size) :
    field? data offset size = some (data.field ⟨offset.toNat, size⟩) := by
  have ha : offset.toNat + size ≤ data.size := by omega
  simp only [field?, place?_eq ho hs, Option.bind_some, at?, if_pos ha, Option.map_some]
  rfl

/-- Contents of one size that differ at most on some ranges. -/
def SameOutside (spans : List Span) (data data' : Bytes) : Prop :=
  data'.size = data.size ∧ ∀ i, (∀ span ∈ spans, ¬ span.Covers i) → data'[i]? = data[i]?

namespace SameOutside

theorem refl (data : Bytes) : SameOutside [] data data := ⟨rfl, fun _ _ ↦ rfl⟩

theorem trans (h : SameOutside spans data data') (h' : SameOutside more data' data'') :
    SameOutside (spans ++ more) data data'' := by
  refine ⟨h'.1.trans h.1, fun i hi ↦ ?_⟩
  rw [h'.2 i fun span hm ↦ hi span (List.mem_append_right _ hm),
    h.2 i fun span hm ↦ hi span (List.mem_append_left _ hm)]

theorem overwrite (data : Bytes) (start : Nat) (bytes : List UInt8) :
    SameOutside [⟨start, bytes.length⟩] data (overwrite data start bytes) := by
  refine ⟨size_overwrite .., fun i hi ↦ overwrite_outside data ?_⟩
  have h := hi _ (List.mem_singleton_self _)
  simp only [Span.Covers, not_and, Nat.not_lt] at h
  omega

/-- A range apart from all those that may differ reads the same. -/
theorem sub_eq (h : SameOutside spans data data') (ha : ∀ other ∈ spans, span.Apart other) :
    data'.sub span = data.sub span := by
  refine congrArg Array.toList (extract_congr h.1 fun i hl hu ↦ h.2 i fun other hm ↦ ?_)
  exact (ha other hm).not_covers ⟨hl, hu⟩

theorem field_eq (h : SameOutside spans data data') (ha : ∀ other ∈ spans, span.Apart other) :
    data'.field span = data.field span :=
  congrArg toNat (h.sub_eq ha)

/-- A change of one range is none if the range holds the same number. -/
theorem eq_of_field_eq (h : SameOutside [span] data data') (hs : span.start + span.length ≤ data.size)
    (hf : data'.field span = data.field span) : data' = data := by
  have hlength : ∀ bytes : Bytes, bytes.size = data.size → (bytes.sub span).length = span.length := by
    intro bytes hsize
    rw [sub, Array.length_toList, Array.size_extract]
    omega
  have hsub : data'.sub span = data.sub span :=
    (toNat_inj ((hlength data' h.1).trans (hlength data rfl).symm)).mp hf
  refine Array.ext_getElem? fun i ↦ ?_
  by_cases hi : span.Covers i
  · obtain ⟨hl, hu⟩ := hi
    have hget := congrArg (·[i - span.start]?) hsub
    simp only [sub, Array.getElem?_toList, Array.getElem?_extract, h.1] at hget
    rwa [if_pos (by omega), if_pos (by omega), Nat.add_sub_cancel' hl] at hget
  · exact h.2 i (by simpa using hi)

end SameOutside

theorem field_overwrite_ofInt {start width : Nat} (value : Int) (h : start + width ≤ data.size) :
    ((overwrite data start (ofInt width value)).field ⟨start, width⟩ : Int) =
      value % 2 ^ (8 * width) := by
  have hl := length_ofInt width value
  have hs : (overwrite data start (ofInt width value)).sub ⟨start, (ofInt width value).length⟩ =
      ofInt width value := sub_overwrite (by omega)
  rw [hl] at hs
  rw [field, hs, toNat_ofInt]

/-- A number written at a place from the start on is read there again, cut to its width. -/
theorem write?_eq_some {offset value : Int} {width : Width} (ho : 0 ≤ offset)
    (h : write? data offset width value = some data') :
    offset + width.bytes ≤ data.size ∧ SameOutside [⟨offset.toNat, width.bytes⟩] data data' ∧
      (data'.field ⟨offset.toNat, width.bytes⟩ : Int) = value % 2 ^ (8 * width.bytes) := by
  obtain ⟨start, hp, rfl⟩ := Option.map_eq_some_iff.mp h
  obtain ⟨hs, rfl⟩ := (place?_eq_some ho).mp hp
  have hsame := SameOutside.overwrite data offset.toNat (ofInt width.bytes value)
  rw [length_ofInt] at hsame
  exact ⟨hs, hsame, field_overwrite_ofInt value (by omega)⟩

/-- Steps that each change their own range change no byte outside all of them. -/
theorem foldlM_sameOutside {α ε : Type} {f : Bytes → α → Except ε Bytes} {span : α → Span}
    {as : List α} (step : ∀ a ∈ as, ∀ data data', f data a = .ok data' →
      SameOutside [span a] data data')
    (h : as.foldlM f data = .ok data') : SameOutside (as.map span) data data' := by
  induction as generalizing data with
  | nil =>
    cases h
    exact .refl _
  | cons a as ih =>
    rw [List.foldlM_cons] at h
    cases hf : f data a with
    | error e =>
      rw [hf] at h
      cases h
    | ok mid =>
      rw [hf] at h
      have hstep := step a List.mem_cons_self data mid hf
      exact hstep.trans (ih (fun a' hm ↦ step a' (List.mem_cons_of_mem _ hm)) h)

/-- What a run of steps does before, at and after one of them. -/
theorem foldlM_split {α ε : Type} {f : Bytes → α → Except ε Bytes} {pre post : List α} {a : α}
    (h : (pre ++ a :: post).foldlM f data = .ok data') :
    ∃ before after, pre.foldlM f data = .ok before ∧ f before a = .ok after ∧
      post.foldlM f after = .ok data' := by
  rw [List.foldlM_append] at h
  cases hp : pre.foldlM f data with
  | error e =>
    rw [hp] at h
    cases h
  | ok before =>
    rw [hp] at h
    change (a :: post).foldlM f before = _ at h
    rw [List.foldlM_cons] at h
    cases ha : f before a with
    | error e =>
      rw [ha] at h
      cases h
    | ok after =>
      rw [ha] at h
      exact ⟨before, after, rfl, ha, h⟩

end Bytes

end Hunks
