import Mathlib
import Hunks.Proofs.Memory.Changes

namespace Hunks

/-- What memory has at an address. -/
inductive Cell where
  | uninitialized
  | byte (b : UInt8)
  deriving DecidableEq, Repr

namespace Region

variable {region first second : Region} {place : Int}

/-- The cell of a region at an address in it. -/
def cell? (region : Region) (place : Int) : Option Cell :=
  match region.data with
  | none => some .uninitialized
  | some data => data[(place - region.start).toNat]?.map .byte

theorem cell?_blank (h : region.data = none) : region.cell? place = some .uninitialized := by
  rw [cell?, h]

theorem cell?_data {data : Bytes} (h : region.data = some data) :
    region.cell? place = data[(place - region.start).toNat]?.map .byte := by
  rw [cell?, h]

/-- A region to which another one is appended has the cells of both. -/
theorem cell?_joined (hstop : first.stop = second.start)
    (hinit : first.initialized = second.initialized)
    (hfilled : ∀ data ∈ first.data, (data.size : Int) = first.size) (hp : first.start ≤ place) :
    Region.cell? { first with
      size := first.size + second.size
      data := first.data.map fun data ↦ data ++ second.data.getD #[] } place =
        if place < first.stop then first.cell? place else second.cell? place := by
  rw [initialized, initialized] at hinit
  cases hd : first.data with
  | none =>
    rw [hd, Option.isSome_none] at hinit
    have hd' : second.data = none := Option.not_isSome_iff_eq_none.mp (by simp [← hinit])
    rw [cell?_blank hd, cell?_blank hd', ite_self]
    exact cell?_blank rfl
  | some data =>
    rw [hd, Option.isSome_some] at hinit
    obtain ⟨more, hd'⟩ := Option.isSome_iff_exists.mp hinit.symm
    have hsize := hfilled data hd
    rw [Region.stop] at hstop ⊢
    rw [hd', cell?_data hd, cell?_data hd']
    show (data ++ more)[(place - first.start).toNat]?.map Cell.byte = _
    split
    · rw [Array.getElem?_append_left (by omega)]
    · rw [Array.getElem?_append_right (by omega)]
      congr 2
      omega

end Region

namespace Memory

variable {memory memory' before : Memory} {region other first second : Region} {plan : Region.Plan}
  {address size place : Int} {bytes data : Bytes}

/-- Memory as a map from addresses to cells. -/
def cell? (memory : Memory) (place : Int) : Option Cell :=
  (memory.regionAt? place).bind fun region ↦ region.cell? place

theorem Sound.cell?_of_mem (hs : memory.Sound) (hr : region ∈ memory)
    (hp : region.start ≤ place ∧ place < region.stop) : memory.cell? place = region.cell? place := by
  rw [Memory.cell?, hs.regionAt? hr hp, Option.bind_some]

theorem cell?_eq_none (h : ∀ region ∈ memory, ¬ (region.start ≤ place ∧ place < region.stop)) :
    memory.cell? place = none := by
  have hnone : memory.regionAt? place = none :=
    List.find?_eq_none.mpr fun region hr hc ↦ h region hr (contains_iff.mp hc)
  rw [cell?, hnone, Option.bind_none]

theorem region_of_cell? {cell : Cell} (h : memory.cell? place = some cell) :
    ∃ region ∈ memory, region.start ≤ place ∧ place < region.stop := by
  by_contra hout
  rw [cell?_eq_none fun region hr hp ↦ hout ⟨region, hr, hp⟩] at h
  cases h

/-- A place has the same cell in memories that have the same regions there. -/
theorem Sound.cell?_congr (hs : memory.Sound) (hs' : memory'.Sound)
    (h : ∀ region, region.start ≤ place ∧ place < region.stop → (region ∈ memory' ↔ region ∈ memory)) :
    memory'.cell? place = memory.cell? place := by
  by_cases hin : ∃ region ∈ memory, region.start ≤ place ∧ place < region.stop
  · obtain ⟨region, hr, hp⟩ := hin
    rw [hs.cell?_of_mem hr hp, hs'.cell?_of_mem ((h region hp).mpr hr) hp]
  · have hout : ∀ region ∈ memory, ¬ (region.start ≤ place ∧ place < region.stop) :=
      fun region hr hp ↦ hin ⟨region, hr, hp⟩
    rw [cell?_eq_none hout, cell?_eq_none fun region hr hp ↦ hout region ((h region hp).mp hr) hp]

/-- A new region has the planned cells, and all other places those that they had. -/
theorem Created.cell?_eq (hc : Created plan before region memory) (hs : before.Sound)
    (hs' : memory.Sound) (place : Int) :
    memory.cell? place =
      if region.start ≤ place ∧ place < region.stop then region.cell? place else before.cell? place := by
  split <;> rename_i hp
  · exact hs'.cell?_of_mem hc.mem hp
  · refine hs.cell?_congr hs' fun other hother ↦ ?_
    rw [hc.memory, mem_insert]
    exact or_iff_right fun he ↦ hp (he ▸ hother)

/-- A region with new content in it has the cells of that content, and no other place changes. -/
theorem Sound.cell?_setData (hs : memory.Sound) (hr : region ∈ memory)
    (hd : (data.size : Int) = region.size) (place : Int) :
    (memory.update { region with data := some data }).cell? place =
      if region.start ≤ place ∧ place < region.stop then
        data[(place - region.start).toNat]?.map .byte
      else memory.cell? place := by
  have hs' := hs.setData hr hd
  split <;> rename_i hp
  · have hm : { region with data := some data } ∈ memory.update { region with data := some data } :=
      mem_update_self hr rfl
    rw [hs'.cell?_of_mem hm hp]
    rfl
  · refine hs.cell?_congr hs' fun other hother ↦ ⟨fun hm ↦ ?_, fun hm ↦ ?_⟩
    · rcases of_mem_update hm with rfl | ⟨hm, -⟩
      · exact absurd hother hp
      · exact hm
    · exact mem_update_of_ne hm fun he ↦ hp (hs.eq_of_start hm hr he ▸ hother)

/-- A write changes the cells of its range and no others. -/
theorem Sound.cell?_write (hs : memory.Sound) (h : memory.write address bytes = .ok memory')
    (place : Int) :
    memory'.cell? place =
      if address ≤ place ∧ place < address + bytes.size then
        bytes[(place - address).toNat]?.map .byte
      else memory.cell? place := by
  obtain ⟨region, data, hr, hl, hu, hd, rfl⟩ := write_eq_ok h
  have hfilled := hs.filled region hr data hd
  rw [hs.cell?_setData hr (by rw [Bytes.size_overwrite, hfilled])]
  rw [Region.stop] at hu ⊢
  by_cases hin : address ≤ place ∧ place < address + bytes.size
  · rw [if_pos hin, if_pos (by omega)]
    obtain ⟨n, rfl⟩ := Int.le.dest hin.1
    have hplace : (address + n - region.start).toNat = (address - region.start).toNat + n := by omega
    rw [hplace, Bytes.overwrite_inside data (by rw [Array.length_toList]; omega) (by omega),
      Array.getElem?_toList]
    congr 2
    omega
  · rw [if_neg hin]
    split <;> rename_i hp
    · rw [Bytes.overwrite_outside data (by rw [Array.length_toList]; omega), ← Region.cell?_data hd,
        hs.cell?_of_mem hr hp]
    · rfl

theorem convert_eq_ok {fill : Int} (h : memory.convert region fill = .ok (other, memory')) :
    (region.data ≠ none ∧ memory' = memory) ∨
      (region.data = none ∧ memory' = memory.update { region with
        data := some (Array.replicate region.size.toNat fill.toNat.toUInt8) }) := by
  rw [convert] at h
  split at h <;> rename_i hinit
  · cases h
    exact Or.inl ⟨Option.isSome_iff_ne_none.mp hinit, rfl⟩
  · split at h
    · cases h
      exact Or.inr ⟨Option.not_isSome_iff_eq_none.mp hinit, rfl⟩
    · cases h

theorem Sound.convert {fill : Int} (hs : memory.Sound) (hr : region ∈ memory)
    (h : memory.convert region fill = .ok (other, memory')) : memory'.Sound := by
  rcases convert_eq_ok h with ⟨-, rfl⟩ | ⟨-, rfl⟩
  · exact hs
  · have hpos := hs.positive region hr
    exact hs.setData hr (by rw [Array.size_replicate]; omega)

/-- A conversion gives the cells of its region a value if they have none. -/
theorem Sound.cell?_convert {fill : Int} (hs : memory.Sound) (hr : region ∈ memory)
    (h : memory.convert region fill = .ok (other, memory')) (place : Int) :
    memory'.cell? place =
      if (region.start ≤ place ∧ place < region.stop) ∧ memory.cell? place = some .uninitialized then
        some (.byte fill.toNat.toUInt8)
      else memory.cell? place := by
  rcases convert_eq_ok h with ⟨hd, rfl⟩ | ⟨hd, rfl⟩
  · rw [if_neg]
    rintro ⟨hp, hcell⟩
    obtain ⟨data, hdata⟩ := Option.ne_none_iff_exists'.mp hd
    rw [hs.cell?_of_mem hr hp, Region.cell?_data hdata] at hcell
    obtain ⟨_, -, he⟩ := Option.map_eq_some_iff.mp hcell
    cases he
  · have hpos := hs.positive region hr
    rw [hs.cell?_setData hr (by rw [Array.size_replicate]; omega)]
    by_cases hp : region.start ≤ place ∧ place < region.stop
    · have hcell : memory.cell? place = some .uninitialized := by
        rw [hs.cell?_of_mem hr hp, Region.cell?_blank hd]
      rw [if_pos hp, if_pos ⟨hp, hcell⟩, Array.getElem?_replicate, if_pos (by rw [Region.stop] at hp; omega)]
      rfl
    · rw [if_neg hp, if_neg fun h ↦ hp h.1]

/-- Joining changes no cell. -/
theorem Sound.cell?_join (hs : memory.Sound) (hf : first ∈ memory) (hsecond : second ∈ memory)
    (h : memory.join first second = .ok (region, memory')) (place : Int) :
    memory'.cell? place = memory.cell? place := by
  have hs' := hs.join hf hsecond h
  obtain ⟨hstop, hinit, hregion, rfl⟩ := join_eq_ok h
  have hpos := hs.positive first hf
  have hpos' := hs.positive second hsecond
  have hmem : region ∈ Memory.update region (memory.filter fun other ↦ other.start ≠ second.start) := by
    have hkept := mem_filter_of_adjacent hf hpos hstop
    exact mem_update_self hkept (by rw [hregion])
  have hstart : region.start = first.start := by rw [hregion]
  have hlast : region.stop = second.stop := by
    rw [Region.stop] at hstop
    rw [hregion, Region.stop, Region.stop]
    dsimp only
    omega
  have hle : first.start ≤ second.start := by
    rw [← hstop, Region.stop]
    omega
  by_cases hin : region.start ≤ place ∧ place < region.stop
  · rw [hs'.cell?_of_mem hmem hin, hregion, Region.cell?_joined hstop hinit (hs.filled first hf) (by omega)]
    split
    · rw [hs.cell?_of_mem hf (by omega)]
    · rw [hs.cell?_of_mem hsecond (by omega)]
  · -- A region that has the place is neither of the two, which lie inside the new one.
    refine hs.cell?_congr hs' fun other hother ↦ ⟨fun hm ↦ ?_, fun hm ↦ ?_⟩
    · rcases of_mem_update hm with rfl | ⟨hm, -⟩
      · exact absurd hother hin
      · exact List.mem_of_mem_filter hm
    · refine mem_update_of_ne (List.mem_filter.mpr ⟨hm, decide_eq_true fun he ↦ ?_⟩) fun he ↦ ?_
      · rw [hs.eq_of_start hm hsecond he] at hother
        omega
      · rw [hs.eq_of_start hm hf (he.trans hstart)] at hother
        have hlt : second.start < second.stop := by
          rw [Region.stop]
          omega
        omega

/-- One region with content has all places of a range. -/
def Readable (memory : Memory) (address size : Int) : Prop :=
  ∃ region ∈ memory, region.data ≠ none ∧ region.start ≤ address ∧ address + size ≤ region.stop

theorem readable_of_read (h : memory.read address size = .ok bytes) : memory.Readable address size := by
  obtain ⟨region, data, hat, hu, hd⟩ := of_read h
  obtain ⟨hm, hl, -⟩ := of_regionAt? hat
  exact ⟨region, hm, Option.ne_none_iff_exists'.mpr ⟨data, hd⟩, hl, hu⟩

theorem Sound.exists_read_iff (hs : memory.Sound) (hpos : 0 < size) :
    (∃ bytes, memory.read address size = .ok bytes) ↔ memory.Readable address size := by
  constructor
  · rintro ⟨bytes, h⟩
    exact readable_of_read h
  · rintro ⟨region, hr, hd, hl, hu⟩
    obtain ⟨data, hdata⟩ := Option.ne_none_iff_exists'.mp hd
    exact ⟨_, hs.read_of_mem hr hdata hl hu hpos⟩

/-- What is read are the bytes of the cells. -/
theorem Sound.cells_of_read (hs : memory.Sound) (hpos : 0 < size)
    (h : memory.read address size = .ok bytes) :
    (bytes.size : Int) = size ∧
      ∀ i : Nat, i < size → memory.cell? (address + i) = bytes[i]?.map .byte := by
  obtain ⟨region, hr, hd, hl, hu⟩ := readable_of_read h
  obtain ⟨data, hdata⟩ := Option.ne_none_iff_exists'.mp hd
  have hfilled := hs.filled region hr data hdata
  rw [hs.read_of_mem hr hdata hl hu hpos] at h
  cases h
  rw [Region.stop] at hu
  refine ⟨by rw [Array.size_extract]; omega, fun i hi ↦ ?_⟩
  have hplace : (address + i - region.start).toNat = (address - region.start).toNat + i := by omega
  rw [hs.cell?_of_mem hr ⟨by omega, by rw [Region.stop]; omega⟩, Region.cell?_data hdata, hplace,
    Array.getElem?_extract, if_pos (by omega)]

/-- A range that stays in one region with content and keeps its bytes reads the same. -/
theorem Sound.read_congr (hs : memory.Sound) (hs' : memory'.Sound) (hpos : 0 < size)
    (hreadable : memory'.Readable address size)
    (hcells : ∀ place b, memory.cell? place = some (.byte b) → memory'.cell? place = some (.byte b))
    (h : memory.read address size = .ok bytes) : memory'.read address size = .ok bytes := by
  obtain ⟨bytes', h'⟩ := (hs'.exists_read_iff hpos).mpr hreadable
  obtain ⟨hsize, hbytes⟩ := hs.cells_of_read hpos h
  obtain ⟨hsize', hbytes'⟩ := hs'.cells_of_read hpos h'
  rw [h', Except.ok.injEq]
  refine Array.ext (by omega) fun i hi hi' ↦ ?_
  have hold := hbytes i (by omega)
  have hnew := hbytes' i (by omega)
  rw [Array.getElem?_eq_getElem hi'] at hold
  rw [Array.getElem?_eq_getElem hi, hcells _ _ hold] at hnew
  exact (Cell.byte.inj (Option.some.inj hnew)).symm

theorem Readable.create (h : before.Readable address size)
    (hc : Created plan before region memory) : memory.Readable address size := by
  obtain ⟨other, hm, hother⟩ := h
  exact ⟨other, hc.memory ▸ mem_insert.mpr (Or.inr hm), hother⟩

theorem Readable.convert {fill : Int} (h : memory.Readable address size) (hs : memory.Sound)
    (hr : region ∈ memory) (hc : memory.convert region fill = .ok (other, memory')) :
    memory'.Readable address size := by
  obtain ⟨found, hm, hd, hrange⟩ := h
  rcases convert_eq_ok hc with ⟨-, rfl⟩ | ⟨hblank, rfl⟩
  · exact ⟨found, hm, hd, hrange⟩
  · refine ⟨found, mem_update_of_ne hm fun he ↦ hd ?_, hd, hrange⟩
    rw [hs.eq_of_start hm hr he, hblank]

/-- A range in one of the two regions lies in the joined one. -/
theorem Readable.join (h : memory.Readable address size) (hs : memory.Sound) (hf : first ∈ memory)
    (hsecond : second ∈ memory) (hj : memory.join first second = .ok (region, memory')) :
    memory'.Readable address size := by
  obtain ⟨found, hm, hd, hl, hu⟩ := h
  obtain ⟨hstop, hinit, hregion, rfl⟩ := join_eq_ok hj
  have hpos := hs.positive first hf
  have hpos' := hs.positive second hsecond
  have hkept := mem_filter_of_adjacent hf hpos hstop
  rw [Region.stop] at hstop
  have hjoined : region ∈ Memory.update region (memory.filter fun other ↦ other.start ≠ second.start) :=
    mem_update_self hkept (by rw [hregion])
  have hdata : first.data ≠ none → region.data ≠ none := by
    rw [hregion]
    simp
  by_cases hfirst : found = first
  · refine ⟨region, hjoined, hdata (hfirst ▸ hd), ?_, ?_⟩ <;> rw [hregion] <;>
      simp only [hfirst, Region.stop] at * <;> omega
  by_cases hlast : found = second
  · have hd' : first.data ≠ none := by
      rw [Region.initialized, Region.initialized, ← hlast] at hinit
      rw [← Option.isSome_iff_ne_none] at hd ⊢
      rwa [hinit]
    refine ⟨region, hjoined, hdata hd', ?_, ?_⟩ <;> rw [hregion] <;>
      simp only [hlast, Region.stop] at * <;> omega
  refine ⟨found, mem_update_of_ne (List.mem_filter.mpr ⟨hm, ?_⟩) ?_, hd, hl, hu⟩
  · exact decide_eq_true fun he ↦ hlast (hs.eq_of_start hm hsecond he)
  · rw [hregion]
    exact fun he ↦ hfirst (hs.eq_of_start hm hf he)

end Memory

end Hunks
