import Mathlib
import Hunks.Proofs.Memory.Cells
import Hunks.Proofs.Memory.Find

namespace Hunks

namespace Bytes

variable {data : Bytes} {pattern : List UInt8} {start place : Nat}

/-- What is found lies in the data as a whole, and the empty pattern is found at once. -/
theorem find?_bounds (h : find? data pattern start = some place) :
    place + pattern.length ≤ data.size ∧ (pattern = [] → place = start) := by
  obtain ⟨hle, hlt, -⟩ := findFrom_eq_some h
  refine ⟨by omega, ?_⟩
  rintro rfl
  rw [find?] at h
  cases hfuel : data.size + 1 - [].length - start with
  | zero =>
    rw [hfuel] at h
    cases h
  | succ fuel =>
    rw [hfuel, findFrom, matchesAt, if_pos rfl] at h
    exact (Option.some.inj h).symm

end Bytes

namespace Region

variable {region first second joined : Region} {plan : Plan} {start : Int} {pattern : List UInt8} {place : Nat}

/-- A region that is initialized has at least the bytes that its size says. -/
def Stocked (region : Region) : Prop :=
  ∀ data ∈ region.data, region.size ≤ data.size

/-- A region that is initialized has just the bytes that its size says. -/
def Filled (region : Region) : Prop :=
  ∀ data ∈ region.data, (data.size : Int) = region.size

theorem filled_iff {data : Bytes} (h : region.data = some data) :
    region.Filled ↔ (data.size : Int) = region.size := by
  simp [Filled, h]

theorem stocked_iff {data : Bytes} (h : region.data = some data) :
    region.Stocked ↔ region.size ≤ data.size := by
  simp [Stocked, h]

/-- What one of two joined regions has too many stays too many, as the other one has none too few. -/
theorem filled_join (hinit : first.initialized = second.initialized) (hfirst : first.Stocked)
    (hsecond : second.Stocked) (hjoined : joined = { first with
      size := first.size + second.size
      data := first.data.map fun data ↦ data ++ second.data.getD #[] }) :
    joined.Stocked ∧ (joined.Filled ↔ first.Filled ∧ second.Filled) := by
  subst hjoined
  rw [initialized, initialized] at hinit
  cases hd : first.data with
  | none =>
    rw [hd, Option.isSome_none] at hinit
    have hd' : second.data = none := Option.not_isSome_iff_eq_none.mp (by simp [← hinit])
    simp [Stocked, Filled, hd, hd']
  | some data =>
    rw [hd, Option.isSome_some] at hinit
    obtain ⟨more, hd'⟩ := Option.isSome_iff_exists.mp hinit.symm
    rw [stocked_iff hd] at hfirst
    rw [stocked_iff hd'] at hsecond
    rw [filled_iff hd, filled_iff hd']
    simp only [Stocked, Filled, hd', Option.map_some, Option.getD_some, Option.mem_def, Option.some.injEq,
      forall_eq', Array.size_append, Int.natCast_add]
    omega

/-- Each byte of two regions that are joined keeps its address. -/
theorem cell?_of_join (hstop : first.stop = second.start) (hinit : first.initialized = second.initialized)
    (hfirst : first.Filled) (hsecond : second.Filled) (hpos : 0 ≤ first.size ∧ 0 ≤ second.size)
    (hjoined : joined = { first with
      size := first.size + second.size
      data := first.data.map fun data ↦ data ++ second.data.getD #[] })
    (hr : region = first ∨ region = second) {data : Bytes} (hd : region.data = some data) {i : Nat}
    (hi : i < data.size) :
    joined.contains (region.start + i) ∧ joined.cell? (region.start + i) = some (.byte data[i]) := by
  have hcells : first.start ≤ region.start + i → joined.cell? (region.start + i) =
      if region.start + i < first.stop then first.cell? (region.start + i)
      else second.cell? (region.start + i) := by
    rw [hjoined]
    exact cell?_joined hstop hinit hfirst
  have hbyte : region.cell? (region.start + i) = some (.byte data[i]) := by
    rw [cell?_data hd, add_sub_cancel_left, Int.toNat_natCast, Array.getElem?_eq_getElem hi]
    rfl
  have hstart : joined.start = first.start := by rw [hjoined]
  have hsize : joined.size = first.size + second.size := by rw [hjoined]
  rw [stop] at hstop
  rw [Memory.contains_iff, stop, hstart, hsize]
  rcases hr with rfl | rfl
  · have hlength := (filled_iff hd).mp hfirst
    rw [hcells (by omega), if_pos (by rw [stop]; omega)]
    exact ⟨by omega, hbyte⟩
  · have hlength := (filled_iff hd).mp hsecond
    rw [hcells (by omega), if_neg (by rw [stop]; omega)]
    exact ⟨by omega, hbyte⟩

theorem find?_bounds (h : region.find? start pattern = some place) (hpos : 0 < region.size)
    (hf : region.Filled) :
    region.contains (region.start + place) ∧ region.start + place + pattern.length ≤ region.stop := by
  rw [find?] at h
  split at h <;> rename_i hstop
  · cases h
  · obtain ⟨data, hd, hfind⟩ := Option.bind_eq_some_iff.mp h
    obtain ⟨hle, hnil⟩ := Bytes.find?_bounds hfind
    have hsize := (filled_iff hd).mp hf
    rw [stop] at hstop
    rw [Memory.contains_iff, stop]
    refine ⟨⟨by omega, ?_⟩, by omega⟩
    cases pattern with
    | nil =>
      have hplace := hnil rfl
      omega
    | cons b rest =>
      rw [List.length_cons] at hle
      omega

end Region

namespace Memory

variable {memory memory' before : Memory} {region other first second : Region} {plan : Region.Plan}
  {address start size : Int} {bytes : Bytes} {pattern : List UInt8}

/-- New content changes what regions have of a property just if it does so for the region itself. -/
theorem Arranged.forall_setData {P : Region → Prop} (h : memory.Arranged) (hr : region ∈ memory)
    (content : Option Bytes) (hP : P { region with data := content } ↔ P region) :
    (∀ r ∈ memory.update { region with data := content }, P r) ↔ ∀ r ∈ memory, P r := by
  constructor
  · intro hall r hm
    by_cases hs : r.start = region.start
    · obtain rfl := h.eq_of_start hm hr hs
      exact hP.mp (hall _ (mem_update_self hm hs))
    · exact hall r (mem_update_of_ne hm hs)
  · intro hall r hm
    rcases of_mem_update hm with rfl | ⟨hm, -⟩
    · exact hP.mpr (hall region hr)
    · exact hall r hm

theorem Arranged.forall_join {P : Region → Prop} (h : memory.Arranged) (hf : first ∈ memory)
    (hsecond : second ∈ memory) (hj : memory.join first second = .ok (region, memory'))
    (hP : P region ↔ P first ∧ P second) : (∀ r ∈ memory', P r) ↔ ∀ r ∈ memory, P r := by
  obtain ⟨hstop, -, hregion, rfl⟩ := join_eq_ok hj
  have hstart : region.start = first.start := by rw [hregion]
  have hkept := mem_filter_of_adjacent hf (h.positive first hf) hstop
  constructor
  · intro hall
    obtain ⟨hfirst, hsecond'⟩ := hP.mp (hall region (mem_update_self hkept hstart.symm))
    intro r hr
    by_cases hs : r.start = second.start
    · rwa [h.eq_of_start hr hsecond hs]
    · by_cases hs' : r.start = region.start
      · rwa [h.eq_of_start hr hf (hs'.trans hstart)]
      · exact hall r (mem_update_of_ne (List.mem_filter.mpr ⟨hr, decide_eq_true hs⟩) hs')
  · intro hall r hr
    rcases of_mem_update hr with rfl | ⟨hr, -⟩
    · exact hP.mpr ⟨hall first hf, hall second hsecond⟩
    · exact hall r (List.mem_of_mem_filter hr)

/-- A new region has the planned bytes, and zeros behind them as far as its size goes. -/
theorem Created.size_data (h : Created plan before region memory) :
    ∀ data ∈ region.data, (data.size : Int) = max region.size ((plan.data.map Array.size).getD 0 : Nat) := by
  intro data hd
  have hpos := h.positive
  rw [h.data, plannedData] at hd
  cases hplan : plan.data with
  | some content =>
    rw [hplan] at hd
    cases hd
    rw [Array.size_append, Bytes.size_zeros, Option.map_some, Option.getD_some]
    omega
  | none =>
    rw [hplan] at hd
    dsimp only at hd
    split at hd
    · cases hd
      rw [Bytes.size_zeros, Option.map_none, Option.getD_none]
      omega
    · cases hd

theorem Created.stocked (h : Created plan before region memory) : region.Stocked := by
  intro data hd
  rw [h.size_data data hd]
  exact le_max_left _ _

/-- A new region has more bytes than its size just if its plan does not fit. -/
theorem Created.filled_iff (h : Created plan before region memory) : region.Filled ↔ plan.Fits := by
  constructor
  · intro hf content hcontent size hsize
    have hplanned : region.size = size := by
      have hp := h.size
      rw [plannedSize, hsize] at hp
      exact (Except.ok.inj hp).symm
    have hdata : region.data = some (content ++ Bytes.zeros (region.size - content.size).toNat) := by
      rw [h.data, plannedData, hcontent]
    have hlength := h.size_data _ hdata
    rw [hf _ hdata, hcontent, Option.map_some, Option.getD_some, hplanned] at hlength
    omega
  · intro hfits
    rw [Region.Filled, h.data]
    exact plannedData_size hfits h.size h.positive

/-- Where no region has bytes beyond its end, a search finds nothing there either. -/
theorem find?_bounds (h : memory.find? start pattern = some address)
    (hpos : ∀ region ∈ memory, 0 < region.size) (hf : ∀ region ∈ memory, region.Filled) :
    ∃ region ∈ memory, region.contains address ∧ address + pattern.length ≤ region.stop := by
  induction memory with
  | nil => cases h
  | cons region memory ih =>
    obtain ⟨hpos', hposrest⟩ := List.forall_mem_cons.mp hpos
    obtain ⟨hf', hfrest⟩ := List.forall_mem_cons.mp hf
    rw [find?_cons] at h
    split at h <;> rename_i hhere
    · cases h
      exact ⟨region, List.mem_cons_self, Region.find?_bounds hhere hpos' hf'⟩
    · obtain ⟨found, hm, hfound⟩ := ih h hposrest hfrest
      exact ⟨found, List.mem_cons_of_mem _ hm, hfound⟩

end Memory

end Hunks
