import Mathlib
import Hunks.Memory
import Hunks.Proofs.Bytes.Span

namespace Hunks

namespace Bytes

variable {data data' data'' : Bytes}

/-- The first of two contents stands at the start of the second. -/
def Begins (data data' : Bytes) : Prop :=
  ∀ i < data.size, data'[i]? = data[i]?

theorem Begins.refl (data : Bytes) : data.Begins data := fun _ _ ↦ rfl

theorem Begins.size_le (h : data.Begins data') : data.size ≤ data'.size := by
  by_contra hlt
  have hi := h data'.size (by omega)
  rw [Array.getElem?_eq_none le_rfl, Array.getElem?_eq_getElem (by omega)] at hi
  cases hi

theorem Begins.trans (h : data.Begins data') (h' : data'.Begins data'') : data.Begins data'' :=
  fun i hi ↦ (h' i (hi.trans_le h.size_le)).trans (h i hi)

theorem Begins.append (h : data.Begins data') (more : Bytes) : data.Begins (data' ++ more) := by
  intro i hi
  rw [Array.getElem?_append_left (hi.trans_le h.size_le), h i hi]

theorem Begins.overwrite (h : data.Begins data') {start : Nat} {bytes : List UInt8}
    (hs : data.size ≤ start ∨ bytes.length = 0) : data.Begins (overwrite data' start bytes) := by
  intro i hi
  rw [overwrite_outside data' (by omega), h i hi]

theorem Begins.overwrite_self (h : data.Begins data') : Bytes.overwrite data' 0 data.toList = data' := by
  have hsize := h.size_le
  refine Array.ext_getElem? fun i ↦ ?_
  by_cases hi : i < data.size
  · have hin : (Bytes.overwrite data' 0 data.toList)[0 + i]? = data.toList[i]? :=
      overwrite_inside data' (by simpa using hi) (by omega)
    rw [Nat.zero_add, Array.getElem?_toList] at hin
    rw [hin, h i hi]
  · exact overwrite_outside data' (by rw [Array.length_toList]; omega)

theorem Begins.extract_eq (h : data.Begins data') : data'.extract 0 data.size = data := by
  apply Array.ext_getElem?
  intro i
  have hsize := h.size_le
  rw [Array.getElem?_extract, Nat.zero_add]
  split
  · exact h i (by omega)
  · rw [Array.getElem?_eq_none (by omega)]

theorem overwrite_all (h : data'.size = data.size) : overwrite data 0 data'.toList = data' := by
  apply Array.ext_getElem?
  intro i
  by_cases hi : i < data.size
  · have hin : (overwrite data 0 data'.toList)[0 + i]? = data'.toList[i]? :=
      overwrite_inside data (by simpa [h] using hi) (by omega)
    rwa [Nat.zero_add, Array.getElem?_toList] at hin
  · rw [Array.getElem?_eq_none (by simpa using hi), Array.getElem?_eq_none (by omega)]

end Bytes

namespace Region

variable {old new new' : Region}

def Apart (region other : Region) : Prop :=
  region.stop ≤ other.start ∨ other.stop ≤ region.start

instance : Std.Symm Apart where
  symm _ _ := Or.symm

/-- The same bytes at the same place, perhaps with more behind them. -/
structure Extends (old new : Region) : Prop where
  start : new.start = old.start
  size : old.size ≤ new.size
  blank : old.data = none → new.data = none
  bytes : ∀ data, old.data = some data → ∃ data', new.data = some data' ∧ data.Begins data'

theorem Extends.refl (region : Region) : region.Extends region where
  start := rfl
  size := le_rfl
  blank h := h
  bytes data h := ⟨data, h, .refl data⟩

theorem Extends.trans (h : old.Extends new) (h' : new.Extends new') : old.Extends new' where
  start := h'.start.trans h.start
  size := h.size.trans h'.size
  blank hb := h'.blank (h.blank hb)
  bytes data hd := by
    obtain ⟨data', hd', hb⟩ := h.bytes data hd
    obtain ⟨data'', hd'', hb'⟩ := h'.bytes data' hd'
    exact ⟨data'', hd'', hb.trans hb'⟩

end Region

namespace Memory

variable {memory memory' before : Memory} {region other : Region} {address : Int} {bytes : Bytes}

/-- Regions lie in order and apart from each other, and each has the bytes that its size says. -/
structure Sound (memory : Memory) : Prop where
  ordered : memory.Pairwise fun region other ↦ region.stop ≤ other.start
  positive : ∀ region ∈ memory, 0 < region.size
  filled : ∀ region ∈ memory, ∀ data ∈ region.data, (data.size : Int) = region.size

theorem sound_nil : Sound [] where
  ordered := .nil
  positive := by simp
  filled := by simp

/-- Regions lie in order and apart from each other, and none is empty. -/
structure Arranged (memory : Memory) : Prop where
  ordered : memory.Pairwise fun region other ↦ region.stop ≤ other.start
  positive : ∀ region ∈ memory, 0 < region.size

theorem Sound.arranged (h : memory.Sound) : memory.Arranged :=
  ⟨h.ordered, h.positive⟩

theorem Arranged.apart (h : memory.Arranged) (hr : region ∈ memory) (ho : other ∈ memory)
    (hne : region ≠ other) : region.Apart other := by
  have hp : memory.Pairwise Region.Apart := h.ordered.imp fun hle ↦ Or.inl hle
  exact hp.forall hr ho hne

theorem Arranged.eq_of_start (h : memory.Arranged) (hr : region ∈ memory) (ho : other ∈ memory)
    (hs : region.start = other.start) : region = other := by
  by_contra hne
  have hr' := h.positive region hr
  have ho' := h.positive other ho
  rcases h.apart hr ho hne with hle | hle <;> rw [Region.stop] at hle <;> omega

theorem Sound.apart (h : memory.Sound) (hr : region ∈ memory) (ho : other ∈ memory)
    (hne : region ≠ other) : region.Apart other :=
  h.arranged.apart hr ho hne

theorem Sound.eq_of_start (h : memory.Sound) (hr : region ∈ memory) (ho : other ∈ memory)
    (hs : region.start = other.start) : region = other :=
  h.arranged.eq_of_start hr ho hs

theorem contains_iff {place : Int} :
    region.contains place = true ↔ region.start ≤ place ∧ place < region.stop := by
  simp [Region.contains]

/-- The region that an address lies in. -/
def regionAt? (memory : Memory) (address : Int) : Option Region :=
  List.find? (fun region ↦ region.contains address) memory

theorem of_regionAt? (h : memory.regionAt? address = some region) :
    region ∈ memory ∧ region.start ≤ address ∧ address < region.stop := by
  rw [regionAt?] at h
  have hc : region.contains address = true := by
    simpa using List.find?_some h
  exact ⟨List.mem_of_find?_eq_some h, contains_iff.mp hc⟩

theorem Sound.regionAt? (h : memory.Sound) (hr : region ∈ memory)
    (hp : region.start ≤ address ∧ address < region.stop) :
    memory.regionAt? address = some region := by
  cases hf : memory.regionAt? address with
  | none => exact absurd (contains_iff.mpr hp) (List.find?_eq_none.mp hf region hr)
  | some other =>
    obtain ⟨hm, hl, hu⟩ := of_regionAt? hf
    by_contra hne
    rcases h.apart hm hr (fun he ↦ hne (congrArg some he)) with hle | hle <;> omega

/-- Bytes can be reached if they lie in one region, which has content. -/
theorem accessible_eq_ok {size : Int} : memory.accessible address size = .ok (region, bytes) ↔
    memory.regionAt? address = some region ∧ address + size ≤ region.stop ∧
      region.data = some bytes := by
  rw [accessible, regionAt?]
  constructor
  · intro h
    split at h
    · cases h
    · rename_i found hfound
      split at h <;> rename_i hstop
      · cases h
      · split at h <;> rename_i hdata
        · cases h
        · cases h
          exact ⟨hfound, by omega, hdata⟩
  · rintro ⟨hfound, hstop, hdata⟩
    rw [hfound]
    dsimp only
    rw [if_neg (by omega), hdata]

theorem of_read {size : Int} (h : memory.read address size = .ok bytes) :
    ∃ region data, memory.regionAt? address = some region ∧ address + size ≤ region.stop ∧
      region.data = some data := by
  cases ha : memory.accessible address size with
  | error e =>
    rw [read, ha] at h
    cases h
  | ok found => exact ⟨found.1, found.2, accessible_eq_ok.mp ha⟩

/-- What is read in a region with content. -/
theorem Sound.read_of_mem {size : Int} {data : Bytes} (hs : memory.Sound) (hr : region ∈ memory)
    (hd : region.data = some data) (hl : region.start ≤ address) (hu : address + size ≤ region.stop)
    (hpos : 0 < size) :
    memory.read address size = .ok (data.extract (address - region.start).toNat
      ((address - region.start).toNat + size.toNat)) := by
  have hat : memory.regionAt? address = some region := hs.regionAt? hr ⟨hl, by omega⟩
  have hread : memory.read address size =
      .ok (Bytes.slice data (address - region.start) (address - region.start + size)) := by
    rw [read, accessible_eq_ok.mpr ⟨hat, hu, hd⟩]
    rfl
  have hplace : (address - region.start + size).toNat =
      (address - region.start).toNat + size.toNat := by omega
  rw [hread, Bytes.slice]
  dsimp only
  rw [if_neg (by omega), if_neg (by omega), hplace]

theorem mem_insert : other ∈ memory.insert region ↔ other = region ∨ other ∈ memory := by
  induction memory with
  | nil => simp [insert]
  | cons first memory ih =>
    rw [insert]
    split
    · rw [List.mem_cons]
    · rw [List.mem_cons, ih, List.mem_cons]
      tauto

theorem Arranged.insert (h : memory.Arranged) (hpos : 0 < region.size)
    (hapart : ∀ other ∈ memory, region.Apart other) : (memory.insert region).Arranged where
  ordered := by
    have hpositive := h.positive
    induction memory with
    | nil => exact List.pairwise_singleton ..
    | cons first memory ih =>
      obtain ⟨hfirst, hrest⟩ := List.pairwise_cons.mp h.ordered
      have hp := hpositive first List.mem_cons_self
      have ha := hapart first List.mem_cons_self
      simp only [Region.Apart, Region.stop] at ha hfirst
      rw [Memory.insert]
      split
      · refine List.pairwise_cons.mpr ⟨fun other hm ↦ ?_, h.ordered⟩
        rw [Region.stop]
        rcases List.mem_cons.mp hm with rfl | hm
        · omega
        · have hle := hfirst other hm
          omega
      · have harranged : Arranged memory := ⟨hrest, fun region hm ↦ h.positive region (by simp [hm])⟩
        refine List.pairwise_cons.mpr ⟨fun other hm ↦ ?_, ih harranged
          (fun other hm ↦ hapart other (by simp [hm])) harranged.positive⟩
        rw [Region.stop]
        rcases mem_insert.mp hm with rfl | hm
        · omega
        · exact hfirst other hm
  positive other hm := by
    rcases mem_insert.mp hm with rfl | hm
    · exact hpos
    · exact h.positive other hm

theorem Sound.insert (h : memory.Sound) (hpos : 0 < region.size)
    (hfilled : ∀ data ∈ region.data, (data.size : Int) = region.size)
    (hapart : ∀ other ∈ memory, region.Apart other) : (memory.insert region).Sound where
  ordered := (h.arranged.insert hpos hapart).ordered
  positive := (h.arranged.insert hpos hapart).positive
  filled other hm := by
    rcases mem_insert.mp hm with rfl | hm
    · exact hfilled
    · exact h.filled other hm

theorem mem_update_of_ne (hm : other ∈ memory) (hne : other.start ≠ region.start) :
    other ∈ memory.update region :=
  List.mem_map.mpr ⟨other, hm, if_neg hne⟩

theorem mem_update_self (hm : other ∈ memory) (hs : other.start = region.start) :
    region ∈ memory.update region :=
  List.mem_map.mpr ⟨other, hm, if_pos hs⟩

theorem of_mem_update (hm : other ∈ memory.update region) :
    other = region ∨ other ∈ memory ∧ other.start ≠ region.start := by
  obtain ⟨found, hf, he⟩ := List.mem_map.mp hm
  split at he
  · exact Or.inl he.symm
  · subst he
    exact Or.inr ⟨hf, by assumption⟩

/-- A region may take the place of another one if what it adds lies in no third one. -/
theorem Arranged.update (h : memory.Arranged) (ho : other ∈ memory) (hs : region.start = other.start)
    (hpos : 0 < region.size)
    (hroom : ∀ next ∈ memory, other.stop ≤ next.start → region.stop ≤ next.start) :
    (memory.update region).Arranged where
  ordered := by
    refine List.pairwise_map.mpr (h.ordered.imp_of_mem fun {a b} ha hb hle ↦ ?_)
    by_cases hae : a.start = region.start
    · have heq := h.eq_of_start ha ho (hae.trans hs)
      have hbne : b.start ≠ region.start := by
        have hp := h.positive a ha
        rw [Region.stop] at hle
        omega
      rw [if_pos hae, if_neg hbne]
      exact hroom b hb (heq ▸ hle)
    · rw [if_neg hae]
      split <;> rename_i hbe
      · rwa [← hbe]
      · exact hle
  positive other hm := by
    rcases of_mem_update hm with rfl | ⟨hm, -⟩
    · exact hpos
    · exact h.positive other hm

theorem Sound.update (h : memory.Sound) (ho : other ∈ memory) (hs : region.start = other.start)
    (hpos : 0 < region.size) (hfilled : ∀ data ∈ region.data, (data.size : Int) = region.size)
    (hroom : ∀ next ∈ memory, other.stop ≤ next.start → region.stop ≤ next.start) :
    (memory.update region).Sound where
  ordered := (h.arranged.update ho hs hpos hroom).ordered
  positive := (h.arranged.update ho hs hpos hroom).positive
  filled other hm := by
    rcases of_mem_update hm with rfl | ⟨hm, -⟩
    · exact hfilled
    · exact h.filled other hm

theorem Arranged.filter (h : memory.Arranged) (p : Region → Bool) : Arranged (memory.filter p) where
  ordered := h.ordered.filter p
  positive region hm := h.positive region (List.mem_of_mem_filter hm)

theorem Sound.filter (h : memory.Sound) (p : Region → Bool) : Sound (memory.filter p) where
  ordered := h.ordered.filter p
  positive region hm := h.positive region (List.mem_of_mem_filter hm)
  filled region hm := h.filled region (List.mem_of_mem_filter hm)

/-- No region has a place of a range. -/
def Clear (memory : Memory) (address : Int) (size : Nat) : Prop :=
  ∀ region ∈ memory, region.stop ≤ address ∨ address + size ≤ region.start

/-- Every region is still there, perhaps with more bytes behind its own. -/
def Keeps (before memory : Memory) : Prop :=
  ∀ old ∈ before, ∃ new ∈ memory, old.Extends new

theorem Keeps.refl (memory : Memory) : memory.Keeps memory :=
  fun old hm ↦ ⟨old, hm, .refl old⟩

theorem Keeps.trans {middle : Memory} (h : before.Keeps middle) (h' : middle.Keeps memory) :
    before.Keeps memory := by
  intro old hm
  obtain ⟨new, hn, hext⟩ := h old hm
  obtain ⟨last, hlast, hext'⟩ := h' new hn
  exact ⟨last, hlast, hext.trans hext'⟩

theorem Keeps.insert (h : before.Keeps memory) (region : Region) :
    before.Keeps (memory.insert region) := by
  intro old hm
  obtain ⟨new, hn, he⟩ := h old hm
  exact ⟨new, mem_insert.mpr (Or.inr hn), he⟩

theorem Keeps.update (h : before.Keeps memory)
    (hr : ∀ old ∈ before, ∀ new ∈ memory, old.Extends new → new.start = region.start →
      old.Extends region) :
    before.Keeps (memory.update region) := by
  intro old hm
  obtain ⟨new, hn, he⟩ := h old hm
  by_cases hs : new.start = region.start
  · exact ⟨region, mem_update_self hn hs, hr old hm new hn he hs⟩
  · exact ⟨new, mem_update_of_ne hn hs, he⟩

theorem Keeps.filter (h : before.Keeps memory) {start : Int}
    (hs : ∀ old ∈ before, old.start ≠ start) :
    before.Keeps (memory.filter fun other ↦ other.start ≠ start) := by
  intro old hm
  obtain ⟨new, hn, he⟩ := h old hm
  refine ⟨new, List.mem_filter.mpr ⟨hn, ?_⟩, he⟩
  rw [he.start]
  exact decide_eq_true (hs old hm)

/-- An address of a region that was kept lies in what became of the region. -/
theorem Keeps.regionAt? (h : before.Keeps memory) (hs : memory.Sound) (hr : region ∈ before)
    (hp : region.start ≤ address ∧ address < region.stop) :
    ∃ found, memory.regionAt? address = some found ∧ region.Extends found := by
  obtain ⟨new, hn, hext⟩ := h region hr
  have hstart := hext.start
  have hsize := hext.size
  refine ⟨new, hs.regionAt? hn ?_, hext⟩
  simp only [Region.stop] at hp ⊢
  omega

/-- What is read of a region that was kept is its own content. -/
theorem Keeps.read (h : before.Keeps memory) (hs : memory.Sound) (hb : before.Sound)
    (hr : region ∈ before) (hd : region.data = some bytes) :
    memory.read region.start region.size = .ok bytes := by
  obtain ⟨new, hn, hext⟩ := h region hr
  obtain ⟨bytes', hnew, hbegins⟩ := hext.bytes bytes hd
  have hstart := hext.start
  have hsize := hext.size
  have hstop : region.start + region.size ≤ new.stop := by
    rw [Region.stop]
    omega
  rw [hs.read_of_mem hn hnew hstart.le hstop (hb.positive region hr), ← hb.filled region hr bytes hd]
  simp [hstart, hbegins.extract_eq]

theorem contains_of_regionAt? (h : memory.regionAt? address = some region) :
    memory.contains address = true := by
  obtain ⟨hm, hp⟩ := of_regionAt? h
  exact List.any_eq_true.mpr ⟨region, hm, contains_iff.mpr hp⟩

theorem read_blank (h : memory.regionAt? address = some region) (hd : region.data = none) :
    memory.read address 1 = .error (.uninitialized address region) := by
  obtain ⟨-, -, hstop⟩ := of_regionAt? h
  rw [regionAt?] at h
  rw [Memory.read, accessible, h]
  dsimp only
  rw [if_neg (by omega), hd]
  rfl

end Memory

end Hunks
