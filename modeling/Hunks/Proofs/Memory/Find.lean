import Mathlib
import Hunks.Proofs.Memory.Holds
import Hunks.Proofs.Memory.Room

namespace Hunks

namespace Bytes

variable {data : Bytes} {pattern : List UInt8} {start place i : Nat}

theorem matchesAt_iff : matchesAt data i pattern = true ↔
    ∀ j < pattern.length, data[i + j]? = pattern[j]? := by
  induction pattern generalizing i with
  | nil => simp [matchesAt]
  | cons b rest ih =>
    rw [matchesAt, Bool.and_eq_true, decide_eq_true_eq, ih, List.length_cons, Nat.forall_lt_succ_left]
    refine and_congr Iff.rfl (forall₂_congr fun j _ ↦ ?_)
    rw [List.getElem?_cons_succ, Nat.add_right_comm, Nat.add_assoc]

/-- A pattern that occurs does so as a whole. -/
theorem matchesAt_iff_sub (hp : pattern ≠ []) : matchesAt data i pattern = true ↔
    i + pattern.length ≤ data.size ∧ data.sub ⟨i, pattern.length⟩ = pattern := by
  have hpos : 0 < pattern.length := List.length_pos_iff.mpr hp
  have hsub : ∀ j, (data.sub ⟨i, pattern.length⟩)[j]? = if j < pattern.length then data[i + j]? else none := by
    intro j
    rw [sub, Array.getElem?_toList, Array.getElem?_extract]
    dsimp only
    split_ifs <;> first | rfl | omega | exact (Array.getElem?_eq_none (by omega)).symm
  rw [matchesAt_iff]
  constructor
  · intro h
    have hlast := h (pattern.length - 1) (by omega)
    rw [List.getElem?_eq_getElem (by omega)] at hlast
    have hlt := (Array.getElem?_eq_some_iff.mp hlast).1
    refine ⟨by omega, List.ext_getElem? fun j ↦ ?_⟩
    rw [hsub]
    split <;> rename_i hj
    · exact h j hj
    · exact (List.getElem?_eq_none (by omega)).symm
  · rintro ⟨-, h⟩ j hj
    have hat := hsub j
    rwa [h, if_pos hj, eq_comm] at hat

theorem findFrom_eq_none {fuel : Nat} (h : findFrom data pattern fuel start = none) :
    ∀ i, start ≤ i → i < start + fuel → ¬ matchesAt data i pattern = true := by
  induction fuel generalizing start with
  | zero => exact fun i hle hlt ↦ by omega
  | succ fuel ih =>
    rw [findFrom] at h
    split at h <;> rename_i hmatch
    · cases h
    · intro i hle hlt
      rcases hle.eq_or_lt with rfl | hlt'
      · exact hmatch
      · exact ih h i hlt' (by omega)

/-- A search that ends with nothing has seen all places with room for the pattern. -/
theorem find?_eq_none (h : find? data pattern start = none) (hp : pattern ≠ []) (hle : start ≤ i) :
    ¬ matchesAt data i pattern = true := by
  intro hi
  have hroom := ((matchesAt_iff_sub hp).mp hi).1
  exact findFrom_eq_none h i hle (by omega) hi

end Bytes

namespace Region

variable {region : Region} {pattern : List UInt8} {start address : Int} {data : Bytes}

/-- A region has some bytes at an address. -/
def Holds (region : Region) (address : Int) (bytes : List UInt8) : Prop :=
  region.start ≤ address ∧ address + bytes.length ≤ region.stop ∧
    ∃ data, region.data = some data ∧
      data.sub ⟨(address - region.start).toNat, bytes.length⟩ = bytes

theorem holds_iff (hd : region.data = some data) (hsize : (data.size : Int) = region.size)
    (hp : pattern ≠ []) : region.Holds address pattern ↔
      region.start ≤ address ∧ Bytes.matchesAt data (address - region.start).toNat pattern = true := by
  simp only [Holds, hd, Option.some.injEq, exists_eq_left', Bytes.matchesAt_iff_sub hp, stop]
  refine and_congr_right fun hle ↦ and_congr_left' ?_
  omega

/-- Where a search through regions finds a pattern in this one, counted from the start of the region. -/
def find? (region : Region) (start : Int) (pattern : List UInt8) : Option Nat :=
  if region.stop ≤ start then none else
    region.data.bind fun data ↦ Bytes.find? data pattern (start - region.start).toNat

theorem isLeast_of_find? {place : Nat} (h : region.find? start pattern = some place) (hp : pattern ≠ [])
    (hfilled : ∀ data ∈ region.data, (data.size : Int) = region.size) :
    IsLeast {address | start ≤ address ∧ region.Holds address pattern} (region.start + place) := by
  rw [find?] at h
  split at h
  · cases h
  · obtain ⟨data, hd, hfind⟩ := Option.bind_eq_some_iff.mp h
    obtain ⟨hle, -, hmatch, hleast⟩ := Bytes.findFrom_eq_some hfind
    simp only [holds_iff hd (hfilled data hd) hp]
    refine ⟨⟨by omega, by omega, ?_⟩, fun address ⟨hstart, hin, hother⟩ ↦ ?_⟩
    · rwa [add_sub_cancel_left]
    · by_contra hlt
      exact hleast _ (by omega) (by omega) hother

theorem not_holds_of_find? (h : region.find? start pattern = none) (hp : pattern ≠ [])
    (hfilled : ∀ data ∈ region.data, (data.size : Int) = region.size) (hstart : start ≤ address) :
    ¬ region.Holds address pattern := by
  intro hholds
  obtain ⟨hl, hu, data, hd, -⟩ := id hholds
  have hpos : 0 < pattern.length := List.length_pos_iff.mpr hp
  rw [find?, if_neg (by omega), hd, Option.bind_some] at h
  exact Bytes.find?_eq_none h hp (by omega) ((holds_iff hd (hfilled data hd) hp).mp hholds).2

end Region

namespace Memory

variable {memory : Memory} {region : Region} {pattern : List UInt8} {start address : Int}

theorem holds_cons : Holds (region :: memory) address pattern ↔
    region.Holds address pattern ∨ memory.Holds address pattern := by
  rw [Holds, List.exists_mem_cons_iff]
  rfl

theorem find?_cons (region : Region) (memory : Memory) (start : Int) (pattern : List UInt8) :
    find? start pattern (region :: memory) =
      match region.find? start pattern with
      | some place => some (region.start + place)
      | none => find? start pattern memory := rfl

theorem Sound.tail (hs : Sound (region :: memory)) : memory.Sound where
  ordered := hs.ordered.tail
  positive r hr := hs.positive r (.tail _ hr)
  filled r hr := hs.filled r (.tail _ hr)

/-- A search that ends with nothing leaves out no place with the pattern. -/
theorem Sound.not_holds_of_find? (hs : memory.Sound) (hp : pattern ≠ [])
    (h : memory.find? start pattern = none) (hstart : start ≤ address) :
    ¬ memory.Holds address pattern := by
  induction memory with
  | nil =>
    rintro ⟨region, hr, -⟩
    cases hr
  | cons region memory ih =>
    rw [find?_cons] at h
    split at h <;> rename_i hhere
    · cases h
    · rw [holds_cons, not_or]
      exact ⟨Region.not_holds_of_find? hhere hp (hs.filled region List.mem_cons_self) hstart, ih hs.tail h⟩

/-- A search finds the first place from its start on with the pattern. -/
theorem Sound.isLeast_of_find? (hs : memory.Sound) (hp : pattern ≠ [])
    (h : memory.find? start pattern = some address) :
    IsLeast {address | start ≤ address ∧ memory.Holds address pattern} address := by
  induction memory with
  | nil => cases h
  | cons region memory ih =>
    have hfilled := hs.filled region List.mem_cons_self
    rw [find?_cons] at h
    split at h <;> rename_i hhere
    · cases h
      obtain ⟨⟨hle, hholds⟩, hleast⟩ := Region.isLeast_of_find? hhere hp hfilled
      refine ⟨⟨hle, holds_cons.mpr (Or.inl hholds)⟩, fun other ⟨hstart, hother⟩ ↦ ?_⟩
      rcases holds_cons.mp hother with hother | ⟨next, hnext, hother⟩
      · exact hleast ⟨hstart, hother⟩
      · -- The other regions lie behind this one.
        have hapart := List.rel_of_pairwise_cons hs.ordered hnext
        have hin := hholds.2.1
        have hin' := hother.1
        omega
    · obtain ⟨⟨hle, hholds⟩, hleast⟩ := ih hs.tail h
      refine ⟨⟨hle, holds_cons.mpr (Or.inr hholds)⟩, fun other ⟨hstart, hother⟩ ↦ ?_⟩
      rcases holds_cons.mp hother with hother | hother
      · exact absurd hother (Region.not_holds_of_find? hhere hp hfilled hstart)
      · exact hleast ⟨hstart, hother⟩

end Memory

end Hunks
