import Mathlib
import Hunks.Proofs.Memory

namespace Hunks

namespace Region

/-- What of a region does not depend on its content. -/
def shape (region : Region) : String × Int × Int :=
  (region.name, region.start, region.size)

/-- Of content and size, where both are given, the content is not the larger one. -/
def Plan.Fits (plan : Region.Plan) : Prop :=
  ∀ data ∈ plan.data, ∀ size ∈ plan.size, (data.size : Int) ≤ size

theorem Plan.fits_of_one {plan : Region.Plan} (h : plan.data = none ∨ plan.size = none) : plan.Fits := by
  rintro data hd size hs
  rcases h with h | h
  · rw [h] at hd
    cases hd
  · rw [h] at hs
    cases hs

end Region

namespace Memory

variable {memory memory' before : Memory} {region other first second : Region}
  {plan : Region.Plan} {address size : Int} {data bytes : Bytes} {name : String}

/-- A region that was created as planned, apart from those before it. -/
structure Created (plan : Region.Plan) (before : Memory) (region : Region) (memory : Memory) :
    Prop where
  name : region.name = plan.name
  start : region.start = plan.address
  size : plannedSize plan = .ok region.size
  data : region.data = plannedData plan region.size
  positive : 0 < region.size
  apart : ∀ other ∈ before, region.Apart other
  memory : memory = before.insert region

theorem create_eq_ok (h : before.create plan = .ok (region, memory)) :
    Created plan before region memory := by
  unfold create at h
  cases hsize : plannedSize plan with
  | error e =>
    rw [hsize] at h
    cases h
  | ok size =>
    rw [hsize] at h
    change (if size ≤ 0 then _ else _) = _ at h
    split at h
    · cases h
    · cases hfind : before.overlapping? plan.address size with
      | some other =>
        rw [hfind] at h
        cases h
      | none =>
        rw [hfind] at h
        cases h
        refine ⟨rfl, rfl, hsize, rfl, by dsimp only; omega, fun other hm ↦ ?_, rfl⟩
        have hapart := List.find?_eq_none.mp hfind other hm
        simp only [decide_eq_true_eq, not_and, Int.not_lt] at hapart
        simp only [Region.Apart, Region.stop] at hapart ⊢
        omega

/-- The region that a plan asks for. -/
def planned (plan : Region.Plan) (size : Int) : Region :=
  ⟨plan.name, plan.address, size, plannedData plan size, plan.read, plan.write, plan.execute⟩

theorem create_apart (hsize : plannedSize plan = .ok size) (hpos : 0 < size)
    (hapart : ∀ other ∈ before, (planned plan size).Apart other) :
    before.create plan = .ok (planned plan size, before.insert (planned plan size)) := by
  have hfind : before.overlapping? plan.address size = none := by
    refine List.find?_eq_none.mpr fun other hm ↦ ?_
    have ha := hapart other hm
    simp only [Region.Apart, Region.stop, planned] at ha
    rw [Region.stop, decide_eq_true_eq]
    omega
  unfold create
  rw [hsize]
  change (if size ≤ 0 then _ else _) = _
  rw [if_neg (by omega), hfind]
  rfl

/-- The planned content of a region has the planned size. -/
theorem plannedData_size (hplan : plan.Fits) (hsize : plannedSize plan = .ok size) (hpos : 0 < size) :
    ∀ data ∈ plannedData plan size, (data.size : Int) = size := by
  intro data hd
  simp only [plannedData, plannedSize] at hd hsize
  cases hdata : plan.data with
  | none =>
    rw [hdata] at hd
    dsimp only at hd
    split at hd
    · cases hd
      rw [Bytes.size_zeros]
      omega
    · cases hd
  | some content =>
    have hle : (content.size : Int) ≤ size := by
      cases hs : plan.size with
      | none =>
        rw [hs, hdata] at hsize
        cases hsize
        exact le_rfl
      | some asked =>
        rw [hs] at hsize
        cases hsize
        exact hplan content hdata _ hs
    rw [hdata] at hd
    cases hd
    rw [Array.size_append, Bytes.size_zeros]
    omega

namespace Created

theorem mem (h : Created plan before region memory) : region ∈ memory := by
  rw [h.memory]
  exact mem_insert.mpr (Or.inl rfl)

theorem sound_of_fits (h : Created plan before region memory) (hplan : plan.Fits) (hs : before.Sound) :
    memory.Sound := by
  rw [h.memory]
  refine hs.insert h.positive ?_ h.apart
  rw [h.data]
  exact plannedData_size hplan h.size h.positive

theorem sound (h : Created plan before region memory)
    (hplan : plan.data = none ∨ plan.size = none) (hs : before.Sound) : memory.Sound :=
  h.sound_of_fits (Region.Plan.fits_of_one hplan) hs

theorem keeps {old : Memory} (h : Created plan before region memory) (hk : old.Keeps before) :
    old.Keeps memory := by
  rw [h.memory]
  exact hk.insert region

/-- A new region lies apart also from what earlier regions have grown from. -/
theorem apart_old {old : Memory} (h : Created plan before region memory) (hk : old.Keeps before)
    (ho : other ∈ old) : region.Apart other := by
  obtain ⟨new, hn, hext⟩ := hk other ho
  have ha := h.apart new hn
  have hstart := hext.start
  have hsize := hext.size
  simp only [Region.Apart, Region.stop] at ha ⊢
  omega

end Created

theorem write_eq_ok (h : memory.write address bytes = .ok memory') :
    ∃ region data, region ∈ memory ∧ region.start ≤ address ∧ address + bytes.size ≤ region.stop ∧
      region.data = some data ∧ memory' = memory.update { region with
        data := some (Bytes.overwrite data (address - region.start).toNat bytes.toList) } := by
  unfold Memory.write at h
  cases ha : memory.accessible address bytes.size with
  | error e =>
    rw [ha] at h
    cases h
  | ok found =>
    rw [ha] at h
    cases h
    obtain ⟨hat, hu, hd⟩ := accessible_eq_ok.mp ha
    obtain ⟨hm, hl, -⟩ := of_regionAt? hat
    exact ⟨found.1, found.2, hm, hl, hu, hd, rfl⟩

theorem Sound.setData (h : memory.Sound) (hr : region ∈ memory)
    (hd : (data.size : Int) = region.size) :
    (memory.update { region with data := some data }).Sound := by
  refine h.update hr rfl (h.positive region hr) ?_ fun _ _ hle ↦ hle
  rintro _ ⟨rfl⟩
  exact hd

theorem Sound.write (hs : memory.Sound) (h : memory.write address bytes = .ok memory') :
    memory'.Sound := by
  obtain ⟨region, data, hr, -, -, hd, rfl⟩ := write_eq_ok h
  refine hs.setData hr ?_
  rw [Bytes.size_overwrite]
  exact hs.filled region hr data hd

/-- A write outside of the old regions keeps them. -/
theorem Keeps.write (hk : before.Keeps memory) (hs : memory.Sound) (hb : before.Sound)
    (h : memory.write address bytes = .ok memory') (hclear : before.Clear address bytes.size) :
    before.Keeps memory' := by
  obtain ⟨region, data, hr, hl, -, hd, rfl⟩ := write_eq_ok h
  refine hk.update fun old ho new hn hext hstart ↦ ?_
  obtain rfl := hs.eq_of_start hn hr hstart
  refine ⟨hext.start, hext.size, fun hnone ↦ ?_, fun data' hd' ↦ ?_⟩
  · rw [hext.blank hnone] at hd
    cases hd
  · obtain ⟨_, hdata, hbegins⟩ := hext.bytes data' hd'
    rw [hd] at hdata
    cases hdata
    refine ⟨_, rfl, hbegins.overwrite ?_⟩
    have hfilled := hb.filled old ho data' hd'
    have ha := hclear old ho
    have hs := hext.start
    rw [Region.stop] at ha
    rw [Array.length_toList]
    omega

theorem write_region (hs : memory.Sound) (hr : region ∈ memory) (hd : region.data = some data)
    (hsize : (bytes.size : Int) = region.size) :
    memory.write region.start bytes = .ok (memory.update { region with data := some bytes }) := by
  have hpos := hs.positive region hr
  have hfilled := hs.filled region hr data hd
  have hat : memory.regionAt? region.start = some region :=
    hs.regionAt? hr ⟨le_rfl, by rw [Region.stop]; omega⟩
  have hstop : region.start + bytes.size ≤ region.stop := by
    rw [Region.stop]
    omega
  rw [Memory.write, accessible_eq_ok.mpr ⟨hat, hstop, hd⟩]
  show Except.ok (memory.update { region with
    data := some (Bytes.overwrite data (region.start - region.start).toNat bytes.toList) }) = _
  rw [Int.sub_self, Int.toNat_zero, Bytes.overwrite_all (by omega)]

theorem Sound.update_self (hs : memory.Sound) (hr : region ∈ memory) :
    memory.update region = memory := by
  have hmap : memory.update region = memory.map id := by
    refine List.map_congr_left fun other hm ↦ ?_
    split <;> rename_i hstart
    · exact hs.eq_of_start hr hm hstart.symm
    · rfl
  rwa [List.map_id] at hmap

/-- Nothing changes where no bytes are written. -/
theorem Sound.write_nil (hs : memory.Sound) (hb : bytes.size = 0)
    (h : memory.write address bytes = .ok memory') : memory' = memory := by
  obtain ⟨region, data, hr, -, -, hd, rfl⟩ := write_eq_ok h
  obtain rfl := Array.eq_empty_of_size_eq_zero hb
  have hself : { region with data := some data } = region := by
    rw [← hd]
  rw [Bytes.overwrite, hself, hs.update_self hr]

/-- The bytes of a region that was kept are there, so writing them again changes nothing. -/
theorem Keeps.write_again (h : before.Keeps memory) (hs : memory.Sound) (hb : before.Sound)
    (hr : region ∈ before) (hd : region.data = some bytes)
    (hw : memory.write region.start bytes = .ok memory') : memory' = memory := by
  have hpos := hb.positive region hr
  obtain ⟨new, hat, hext⟩ := h.regionAt? hs hr ⟨le_rfl, by rw [Region.stop]; omega⟩
  obtain ⟨bytes', hnew, hbegins⟩ := hext.bytes bytes hd
  obtain ⟨found, data, hf, hl, hu, hdata, rfl⟩ := write_eq_ok hw
  have hfilled := hb.filled region hr bytes hd
  cases hat.symm.trans (hs.regionAt? hf ⟨hl, by omega⟩)
  cases hdata.symm.trans hnew
  have hzero : (region.start - new.start).toNat = 0 := by
    rw [hext.start, Int.sub_self, Int.toNat_zero]
  rw [hzero, hbegins.overwrite_self, ← hnew]
  exact hs.update_self hf

theorem shape_update (hs : memory.Sound) (hr : region ∈ memory) (content : Option Bytes) :
    (memory.update { region with data := content }).map Region.shape =
      memory.map Region.shape := by
  rw [update, List.map_map]
  refine List.map_congr_left fun other hm ↦ ?_
  rw [Function.comp_apply]
  split <;> rename_i hstart
  · rw [hs.eq_of_start hm hr hstart]
    rfl
  · rfl

theorem shape_write (hs : memory.Sound) (h : memory.write address bytes = .ok memory') :
    memory'.map Region.shape = memory.map Region.shape := by
  obtain ⟨region, data, hr, -, -, -, rfl⟩ := write_eq_ok h
  exact shape_update hs hr _

theorem named?_shape (memory : Memory) (name : String) :
    (memory.named? name).map Region.shape =
      (memory.map Region.shape).find? fun shape ↦ shape.1 = name := by
  rw [List.find?_map]
  rfl

theorem named?_insert (memory : Memory) (hn : region.name ≠ name) :
    (memory.insert region).named? name = memory.named? name := by
  induction memory with
  | nil => simp [insert, named?, hn]
  | cons first memory ih =>
    rw [insert]
    split
    · simp [named?, hn]
    · simp only [named?, List.find?_cons]
      split
      · rfl
      · exact ih

theorem named?_update (hn : region.name ≠ name)
    (ho : ∀ other ∈ memory, other.start = region.start → other.name ≠ name) :
    (memory.update region).named? name = memory.named? name := by
  rw [named?, update, List.find?_map]
  induction memory with
  | nil => rfl
  | cons first memory ih =>
    have hrest := ih fun other hm ↦ ho other (List.mem_cons_of_mem _ hm)
    by_cases hs : first.start = region.start
    · have hfirst := ho first List.mem_cons_self hs
      simpa [named?, List.find?_cons, hs, hn, hfirst] using hrest
    · by_cases hfirst : first.name = name
      · simp [named?, hs, hfirst]
      · simpa [named?, List.find?_cons, hs, hfirst] using hrest

theorem convert_blank (memory : Memory) (hd : region.data = none) :
    memory.convert region 0 =
      .ok ({ region with data := some (Bytes.zeros region.size.toNat) },
        memory.update { region with data := some (Bytes.zeros region.size.toNat) }) := by
  have hblank : ¬ region.initialized = true := by simp [Region.initialized, hd]
  rw [convert, if_neg hblank, if_pos (by decide)]
  rfl

theorem join_eq_ok (h : memory.join first second = .ok (region, memory')) :
    first.stop = second.start ∧ first.initialized = second.initialized ∧
      region = { first with
        size := first.size + second.size
        data := first.data.map fun data ↦ data ++ second.data.getD #[] } ∧
      memory' = Memory.update region (memory.filter fun other ↦ other.start ≠ second.start) := by
  by_cases hstop : first.stop = second.start
  · by_cases hinit : first.initialized = second.initialized
    · simp only [join, hstop, hinit, ne_eq, not_true_eq_false, if_false] at h
      cases h
      exact ⟨hstop, hinit, rfl, rfl⟩
    · simp only [join, hstop, hinit, ne_eq, not_true_eq_false, not_false_eq_true, if_false, if_true] at h
      cases h
  · simp only [join, hstop, ne_eq, not_false_eq_true, if_true] at h
    cases h

theorem filter_insert (h : ∀ other ∈ memory, other.start ≠ region.start) :
    (memory.insert region).filter (fun other ↦ other.start ≠ region.start) = memory := by
  induction memory with
  | nil => simp [insert]
  | cons first memory ih =>
    have hself : (first :: memory).filter (fun other ↦ other.start ≠ region.start) = first :: memory :=
      List.filter_eq_self.mpr fun other hm ↦ by simpa using h other hm
    rw [insert]
    split
    · rw [List.filter_cons_of_neg (by simp), hself]
    · rw [List.filter_cons_of_pos (by simpa using h first List.mem_cons_self),
        ih fun other hm ↦ h other (List.mem_cons_of_mem _ hm)]

theorem filter_update (memory : Memory) (region : Region) :
    (memory.update region).filter (fun other ↦ other.start ≠ region.start) =
      memory.filter fun other ↦ other.start ≠ region.start := by
  induction memory with
  | nil => rfl
  | cons first memory ih =>
    rw [update, List.map_cons]
    by_cases hs : first.start = region.start
    · rw [if_pos hs, List.filter_cons_of_neg (by simp), List.filter_cons_of_neg (by simpa using hs)]
      exact ih
    · rw [if_neg hs, List.filter_cons_of_pos (by simpa using hs),
        List.filter_cons_of_pos (by simpa using hs)]
      exact congrArg _ ih

theorem mem_filter_of_adjacent (hf : first ∈ memory) (hpos : 0 < first.size)
    (hstop : first.stop = second.start) :
    first ∈ memory.filter fun other ↦ other.start ≠ second.start := by
  rw [Region.stop] at hstop
  apply List.mem_filter.mpr
  simp only [hf, decide_eq_true_eq, true_and]
  omega

/-- The region behind both has room behind what they are joined to. -/
theorem Arranged.join (h : memory.Arranged) (hf : first ∈ memory) (hsecond : second ∈ memory)
    (hj : memory.join first second = .ok (region, memory')) : memory'.Arranged := by
  obtain ⟨hstop, -, rfl, rfl⟩ := join_eq_ok hj
  have hfirst := h.positive first hf
  have hpos := h.positive second hsecond
  have hmem := mem_filter_of_adjacent hf hfirst hstop
  rw [Region.stop] at hstop
  refine (h.filter _).update hmem rfl (by dsimp only; omega) fun next hn hle ↦ ?_
  obtain ⟨hn, hne⟩ := List.mem_filter.mp hn
  rw [decide_eq_true_eq] at hne
  have hnext := h.positive next hn
  have ha := h.apart hsecond hn fun he ↦ hne (by rw [he])
  simp only [Region.Apart, Region.stop] at ha hle ⊢
  omega

theorem Sound.join (hs : memory.Sound) (hf : first ∈ memory) (hsecond : second ∈ memory)
    (h : memory.join first second = .ok (region, memory')) : memory'.Sound where
  ordered := (hs.arranged.join hf hsecond h).ordered
  positive := (hs.arranged.join hf hsecond h).positive
  filled := by
    obtain ⟨-, hinit, rfl, rfl⟩ := join_eq_ok h
    intro other hm data' hd
    rcases of_mem_update hm with rfl | ⟨hm, -⟩
    · obtain ⟨data, hdata, rfl⟩ := Option.map_eq_some_iff.mp hd
      rw [Region.initialized, Region.initialized, hdata, Option.isSome_some] at hinit
      obtain ⟨more, hmore⟩ := Option.isSome_iff_exists.mp hinit.symm
      have hf' := hs.filled first hf data hdata
      have hm' := hs.filled second hsecond more hmore
      rw [hmore, Option.getD_some, Array.size_append]
      push_cast
      omega
    · exact hs.filled other (List.mem_of_mem_filter hm) data' hd

/-- The second region goes, so it must not be an old one. -/
theorem Keeps.join (hk : before.Keeps memory) (hs : memory.Sound) (hf : first ∈ memory)
    (hsecond : second ∈ memory) (h : memory.join first second = .ok (region, memory'))
    (hnew : ∀ old ∈ before, old.start ≠ second.start) : before.Keeps memory' := by
  obtain ⟨-, -, rfl, rfl⟩ := join_eq_ok h
  have hpos := hs.positive second hsecond
  have hext : first.Extends { first with
      size := first.size + second.size
      data := first.data.map fun data ↦ data ++ second.data.getD #[] } := by
    refine ⟨rfl, by dsimp only; omega, fun hnone ↦ by simp [hnone], fun data hd ↦ ?_⟩
    exact ⟨data ++ second.data.getD #[], by simp [hd], (Bytes.Begins.refl data).append _⟩
  refine (hk.filter hnew).update fun old _ new hn hold hstart ↦ hold.trans ?_
  rw [hs.eq_of_start (List.mem_of_mem_filter hn) hf hstart]
  exact hext

/-- Nothing is left of a new region, whatever content it got, when it is joined to an old one. -/
theorem join_created {plan : Region.Plan} {first tail joined : Region} {content : Option Bytes}
    (hs : before.Sound) (hc : Created plan before tail memory)
    (h : (memory.update { tail with data := content }).join first { tail with data := content } =
      .ok (joined, memory')) :
    joined = { first with size := first.size + tail.size, data := joined.data } ∧
      memory' = before.update joined := by
  obtain ⟨-, -, hjoined, hmemory⟩ := join_eq_ok h
  have hfresh : ∀ other ∈ before, other.start ≠ tail.start := by
    intro other hm
    have ha := hc.apart other hm
    have hp := hs.positive other hm
    have hp' := hc.positive
    simp only [Region.Apart, Region.stop] at ha
    omega
  have hupdate := filter_update memory { tail with data := content }
  have hinsert := filter_insert hfresh
  rw [← hc.memory] at hinsert
  exact ⟨by rw [hjoined], hmemory.trans (congrArg _ (hupdate.trans hinsert))⟩

end Memory

end Hunks
