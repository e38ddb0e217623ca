import Mathlib
import Hunks.Proofs.Memory.Changes
import Hunks.Slots

namespace Hunks

theorem Bytes.Begins.sub_eq {data data' : Bytes} {span : Span} (h : data.Begins data')
    (hs : span.start + span.length ≤ data.size) : data'.sub span = data.sub span := by
  refine congrArg Array.toList (Array.ext_getElem? fun i ↦ ?_)
  have hsize := h.size_le
  rw [Array.getElem?_extract, Array.getElem?_extract]
  split_ifs <;> first | omega | rfl | exact h _ (by omega)

namespace Memory

variable {memory memory' before : Memory} {region : Region} {address address' : Int} {size : Nat}
  {bytes : List UInt8} {bytes' : Bytes} {name : String}

/-- One region has all places of a range. -/
def Covers (memory : Memory) (address : Int) (size : Nat) : Prop :=
  ∃ region ∈ memory, region.start ≤ address ∧ address + size ≤ region.stop

/-- One region has all places of a range, and these bytes at them. -/
def Holds (memory : Memory) (address : Int) (bytes : List UInt8) : Prop :=
  ∃ region ∈ memory, region.start ≤ address ∧ address + bytes.length ≤ region.stop ∧
    ∃ data, region.data = some data ∧
      data.sub ⟨(address - region.start).toNat, bytes.length⟩ = bytes

theorem Holds.covers (h : memory.Holds address bytes) : memory.Covers address bytes.length := by
  obtain ⟨region, hm, hl, hu, -⟩ := h
  exact ⟨region, hm, hl, hu⟩

theorem Keeps.covers (h : before.Keeps memory) (hc : before.Covers address size) :
    memory.Covers address size := by
  obtain ⟨old, hm, hl, hu⟩ := hc
  obtain ⟨new, hn, hext⟩ := h old hm
  have hstart := hext.start
  have hsize := hext.size
  refine ⟨new, hn, ?_, ?_⟩ <;> simp only [Region.stop] at * <;> omega

theorem Keeps.clear (h : before.Keeps memory) (hc : memory.Clear address size) :
    before.Clear address size := by
  intro old hm
  obtain ⟨new, hn, hext⟩ := h old hm
  have hnew := hc new hn
  have hstart := hext.start
  have hsize := hext.size
  simp only [Region.stop] at *
  omega

theorem Covers.not_clear (hc : memory.Covers address size) (hsize : 0 < size) :
    ¬ memory.Clear address size := by
  intro hclear
  obtain ⟨region, hm, hl, hu⟩ := hc
  have hregion := hclear region hm
  omega

theorem Keeps.holds (h : before.Keeps memory) (hs : before.Sound) (hb : before.Holds address bytes) :
    memory.Holds address bytes := by
  obtain ⟨old, hm, hl, hu, data, hd, hsub⟩ := hb
  obtain ⟨new, hn, hext⟩ := h old hm
  obtain ⟨data', hd', hbegins⟩ := hext.bytes data hd
  have hstart := hext.start
  have hsize := hext.size
  have hfilled := hs.filled old hm data hd
  rw [Region.stop] at hu
  refine ⟨new, hn, by omega, by rw [Region.stop]; omega, data', hd', ?_⟩
  rw [hstart, hbegins.sub_eq (by dsimp only; omega), hsub]

/-- Bytes that memory holds can be read. -/
theorem Holds.read (h : memory.Holds address bytes) (hs : memory.Sound) (hb : bytes ≠ []) :
    memory.read address bytes.length = .ok bytes.toArray := by
  obtain ⟨region, hm, hl, hu, data, hd, hsub⟩ := h
  have hpos := List.length_pos_iff.mpr hb
  rw [hs.read_of_mem hm hd hl hu (by omega), Int.toNat_natCast]
  exact congrArg Except.ok (congrArg List.toArray hsub)

theorem write_holds (hs : memory.Sound) (h : memory.write address bytes' = .ok memory') :
    memory'.Holds address bytes'.toList := by
  obtain ⟨region, data, hr, hl, hu, hd, rfl⟩ := write_eq_ok h
  have hfilled := hs.filled region hr data hd
  refine ⟨_, mem_update_self hr rfl, hl, ?_, _, rfl, Bytes.sub_overwrite ?_⟩
  · rwa [Array.length_toList]
  · rw [Region.stop] at hu
    rw [Array.length_toList]
    omega

/-- Bytes stay where others are written. -/
theorem Holds.write (h : memory.Holds address bytes) (hs : memory.Sound)
    (hw : memory.write address' bytes' = .ok memory')
    (ha : address + bytes.length ≤ address' ∨ address' + bytes'.size ≤ address) :
    memory'.Holds address bytes := by
  obtain ⟨region, data, hr, hl, hu, hd, rfl⟩ := write_eq_ok hw
  obtain ⟨found, hm, hl', hu', data', hd', hsub⟩ := h
  by_cases hstart : found.start = region.start
  · obtain rfl := hs.eq_of_start hm hr hstart
    cases hd.symm.trans hd'
    refine ⟨_, mem_update_self hr rfl, hl', hu', _, rfl, ?_⟩
    rw [(Bytes.SameOutside.overwrite data _ _).sub_eq, hsub]
    simp only [List.mem_singleton, forall_eq, Span.Apart, Array.length_toList]
    omega
  · exact ⟨found, mem_update_of_ne hm hstart, hl', hu', data', hd', hsub⟩

/-- All regions consist of whole long words. -/
def Longs (memory : Memory) : Prop :=
  ∀ region ∈ memory, ∃ n : Nat, region.size = n * SlotStore.slotSize

theorem Longs.insert (h : memory.Longs) {n : Nat} (hn : region.size = n * SlotStore.slotSize) :
    (memory.insert region).Longs := by
  intro other hm
  rcases mem_insert.mp hm with rfl | hm
  · exact ⟨n, hn⟩
  · exact h other hm

theorem Longs.update (h : memory.Longs) {n : Nat} (hn : region.size = n * SlotStore.slotSize) :
    (memory.update region).Longs := by
  intro other hm
  rcases of_mem_update hm with rfl | ⟨hm, -⟩
  · exact ⟨n, hn⟩
  · exact h other hm

theorem Longs.of_shape (h : memory.Longs)
    (hm : memory'.map Region.shape = memory.map Region.shape) : memory'.Longs := by
  intro region hr
  have hshape : region.shape ∈ memory.map Region.shape := hm ▸ List.mem_map_of_mem hr
  obtain ⟨old, ho, he⟩ := List.mem_map.mp hshape
  obtain ⟨n, hn⟩ := h old ho
  refine ⟨n, ?_⟩
  rw [← hn]
  exact (congrArg (fun shape ↦ shape.2.2) he).symm

end Memory

end Hunks
