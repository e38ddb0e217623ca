import Mathlib
import Hunks.Proofs.Load.InStep

namespace Hunks

open Hunks.Action (run)

namespace Memory

variable {plan : Region.Plan} {before memory : Memory} {region : Region} {size : Int} {e : AccessError}

/-- Something in a memory overlaps a region, perhaps the region itself. -/
def Occupies (memory : Memory) (region : Region) : Prop :=
  ∃ other ∈ memory, ¬ region.Apart other

theorem occupies_of_mem (hm : region ∈ memory) (hpos : 0 < region.size) : memory.Occupies region := by
  refine ⟨region, hm, ?_⟩
  simp only [Region.Apart, Region.stop]
  omega

/-- What keeps the regions of a memory occupies at least as much. -/
theorem Keeps.occupies (h : before.Keeps memory) (ho : before.Occupies region) :
    memory.Occupies region := by
  obtain ⟨old, hm, hold⟩ := ho
  obtain ⟨new, hn, hext⟩ := h old hm
  have hstart := hext.start
  have hsize := hext.size
  refine ⟨new, hn, ?_⟩
  simp only [Region.Apart, Region.stop] at hold ⊢
  omega

theorem create_occupied (hsize : plannedSize plan = .ok size) (ho : memory.Occupies (planned plan size)) :
    ∃ e, memory.create plan = .error e := by
  cases hc : memory.create plan with
  | error e => exact ⟨e, rfl⟩
  | ok created =>
    have hcreated := create_eq_ok hc
    obtain ⟨other, hm, hoverlap⟩ := ho
    have hapart := hcreated.apart other hm
    have hplanned : created.1.size = size := Except.ok.inj (hcreated.size.symm.trans hsize)
    have hstart := hcreated.start
    simp only [Region.Apart, Region.stop, planned] at hapart hoverlap
    omega

/-- A region of a right size is created unless it overlaps another one. -/
theorem create_cases (hsize : plannedSize plan = .ok size) (hpos : 0 < size) (memory : Memory) :
    (memory.Occupies (planned plan size) ∧ ∃ e, memory.create plan = .error e) ∨
      memory.create plan = .ok (planned plan size, memory.insert (planned plan size)) := by
  by_cases ho : memory.Occupies (planned plan size)
  · exact Or.inl ⟨ho, create_occupied hsize ho⟩
  · refine Or.inr (create_apart hsize hpos fun other hm ↦ ?_)
    by_contra hoverlap
    exact ho ⟨other, hm, hoverlap⟩

end Memory

/-- A memory in which the segments of an image with contents have been created as far as there was room
for them. -/
structure Image.Attempted (image : Image) (base : Int) (contents : List Bytes) (before memory : Memory) :
    Prop where
  kept : ∀ region ∈ before, region ∈ memory
  placed : ∀ region ∈ memory, region ∈ before ∨ ∃ id, image.Places base contents id region
  occupied : ∀ id region, image.Places base contents id region → memory.Occupies region

theorem Image.attempted_nil (image : Image) (base : Int) (memory : Memory) :
    image.Attempted base [] memory memory where
  kept _ hm := hm
  placed _ hm := Or.inl hm
  occupied _ _ h := (not_places (by simp) h).elim

namespace Loading

variable {ρ : Type} {loading loading' : Loading ρ} {image : Image} {buffers : List Bytes} {base : Int}
  {before : Memory}

theorem createSegment_attempted (hf : image.Filled buffers) {id : Nat} {segment : Segment}
    {address : Int} {data : Bytes} (hs : image.segments[id]? = some segment)
    (ha : (image.layout base 0)[id]? = some address) (hd : buffers[id]? = some data)
    (hrel : loading.host.Reliable)
    (hp : image.Attempted base (buffers.take id) before loading.host.program.memory)
    (hr : run (createSegment id segment address data) loading = (.ok (), loading')) :
    ∃ memory, loading' = loading.withMemory memory ∧
      image.Attempted base (buffers.take (id + 1)) before memory := by
  have hsize := hf.size id segment data hs hd
  have hnext : ∀ region, (∃ id', image.Places base (buffers.take (id + 1)) id' region) ↔
      (segment.size ≠ 0 ∧ region = segment.region id address data) ∨
        ∃ id', image.Places base (buffers.take id) id' region :=
    fun region ↦ Image.exists_places_take hs ha hd
  have hplaced : ∀ region ∈ loading.host.program.memory, region ∈ before ∨
      ∃ id', image.Places base (buffers.take (id + 1)) id' region :=
    fun region hm ↦ (hp.placed region hm).imp_right fun h ↦ (hnext region).mpr (Or.inr h)
  rw [createSegment] at hr
  split at hr <;> rename_i hzero
  · rw [Action.run_debug] at hr
    cases hr
    refine ⟨_, rfl, hp.kept, hplaced, fun id' region h ↦ ?_⟩
    obtain h | ⟨id', h⟩ := (hnext region).mp ⟨id', h⟩
    · exact absurd hzero h.1
    · exact hp.occupied id' region h
  · have hpos : (0 : Int) < segment.size := by omega
    have hplanned : Memory.plannedSize (segmentPlan id segment address data) =
        .ok (segment.size : Int) := Segment.plannedSize_segmentPlan hsize
    rw [Action.run_bind, run_createBlock hrel] at hr
    rcases Memory.create_cases hplanned hpos loading.host.program.memory with ⟨ho, e, hc⟩ | hc
    · rw [hc] at hr
      cases hr
      refine ⟨_, rfl, hp.kept, hplaced, fun id' region h ↦ ?_⟩
      obtain ⟨-, rfl⟩ | ⟨id', h⟩ := (hnext region).mp ⟨id', h⟩
      · exact ho
      · exact hp.occupied id' region h
    · rw [hc] at hr
      cases hr
      refine ⟨_, rfl, fun region hm ↦ ?_, fun region hm ↦ ?_, fun id' region h ↦ ?_⟩
      · exact Memory.mem_insert.mpr (Or.inr (hp.kept region hm))
      · rcases Memory.mem_insert.mp hm with rfl | hm
        · exact Or.inr ((hnext _).mpr (Or.inl ⟨hzero, rfl⟩))
        · exact hplaced region hm
      · obtain ⟨-, rfl⟩ | ⟨id', h⟩ := (hnext region).mp ⟨id', h⟩
        · exact Memory.occupies_of_mem (Memory.mem_insert.mpr (Or.inl rfl)) hpos
        · exact ((Memory.Keeps.refl _).insert _).occupies (hp.occupied id' region h)

/-- Each segment is created, or there is something in its place. -/
theorem createSegments_attempted (hf : image.Filled buffers) (hrel : loading.host.Reliable)
    (hr : run (eachSegment image (image.layout base 0) buffers createSegment) loading =
      (.ok (), loading')) :
    ∃ memory, loading' = loading.withMemory memory ∧
      image.Attempted base buffers loading.host.program.memory memory := by
  have hinv := eachSegment_invariant (fun n loading' ↦ ∃ memory, loading' = loading.withMemory memory ∧
      image.Attempted base (buffers.take n) loading.host.program.memory memory)
    (Image.length_layout ..) hf.length ?_ ⟨_, rfl, image.attempted_nil base _⟩ (.of_run hr)
  · rwa [List.take_of_length_le hf.length.le] at hinv
  · rintro id segment address data _ last hs ha hd ⟨memory, rfl, hattempted⟩ hstep
    have hrel' : (loading.withMemory memory).host.Reliable := hrel.withMemory memory
    obtain ⟨memory', rfl, h⟩ := createSegment_attempted hf hs ha hd hrel' hattempted hstep.1
    exact ⟨memory', rfl, h⟩

end Loading

end Hunks
