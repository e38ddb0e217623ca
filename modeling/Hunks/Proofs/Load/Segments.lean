import Mathlib
import Hunks.Load
import Hunks.Proofs.Host.Extends
import Hunks.Proofs.Layout

namespace Hunks

open Hunks.Action (run Runs)

namespace Loading

variable {ρ α : Type} {loading loading' : Loading ρ}

theorem run_attempt (operation : Operation) (address : Int) (x : Host.Access α)
    (loading : Loading ρ) :
    run (attempt operation address x) loading =
      (.ok (run x loading.host).1.toOption, { loading with host := (run x loading.host).2 }) := by
  rw [attempt, Action.run_bind, Action.run_focus, Action.run_attempt, Host.call,
    Action.run_mapError]
  dsimp only
  cases (run x loading.host).1 <;> rfl

theorem run_annotate (operation : Operation) (address : Int) (x : Host.Access α)
    (loading : Loading ρ) :
    run (annotate operation address x) loading =
      (.ok (), { loading with host := (run x loading.host).2 }) := by
  rw [annotate, Action.run_bind_ok (run_attempt ..)]
  rfl

def withMemory (loading : Loading ρ) (memory : Memory) : Loading ρ :=
  { loading with host := loading.host.withMemory memory }

theorem run_createBlock (h : loading.host.Reliable) (plan : Region.Plan) :
    run (createBlock plan) loading =
      match Memory.create plan loading.host.program.memory with
      | .ok (region, memory) => (.ok (some region), loading.withMemory memory)
      | .error _ => (.ok none, loading) := by
  rw [createBlock, run_attempt, Host.run_createBlock h]
  cases Memory.create plan loading.host.program.memory <;> rfl

/-- An invariant that ties the number of segments a loop has gone through to its state. -/
theorem eachSegment_invariant {Q : Report → Prop} {image : Image} {addresses : List Int}
    {buffers : List Bytes} {f : Nat → Segment → Int → Bytes → Load ρ Unit}
    (I : Nat → Loading ρ → Prop) (ha : addresses.length = image.segments.length)
    (hb : buffers.length = image.segments.length)
    (step : ∀ id segment address data loading loading', image.segments[id]? = some segment →
      addresses[id]? = some address → buffers[id]? = some data → I id loading →
      Runs Q (f id segment address data) loading () loading' → I (id + 1) loading')
    (h : I 0 loading) (hr : Runs Q (eachSegment image addresses buffers f) loading () loading') :
    I image.segments.length loading' := by
  have hinv := Runs.forEach_invariant (fun done loading ↦ I done.length loading) ?_ h hr
  · rwa [List.length_zipIdx, List.length_zip, List.length_zip, ha, hb, min_self, min_self] at hinv
  rintro done ⟨⟨segment, address, data⟩, id⟩ rest middle after hsplit hI hstep
  obtain ⟨hzip, rfl⟩ := getElem?_of_zipIdx_eq hsplit
  rw [List.getElem?_zip_eq_some, List.getElem?_zip_eq_some] at hzip
  obtain ⟨hs, ha', hd⟩ := hzip
  rw [List.length_append]
  exact step _ _ _ _ _ _ hs ha' hd hI hstep

end Loading

namespace Segment

/-- The region that a segment gets at an address. -/
def region (id : Nat) (segment : Segment) (address : Int) (content : Bytes) : Region :=
  Memory.planned (Loading.segmentPlan id segment address content) segment.size

variable {id : Nat} {segment : Segment} {address : Int} {content content' : Bytes}

@[simp] theorem start_region : (segment.region id address content).start = address := by
  rw [region, Memory.planned, Loading.segmentPlan]
  dsimp only
  split <;> rfl

@[simp] theorem size_region : (segment.region id address content).size = segment.size := rfl

@[simp] theorem stop_region :
    (segment.region id address content).stop = address + segment.size := by
  rw [Region.stop, start_region, size_region]

theorem plannedSize_segmentPlan (h : content.size = segment.size) :
    Memory.plannedSize (Loading.segmentPlan id segment address content) =
      .ok (segment.size : Int) := by
  rw [Loading.segmentPlan]
  split
  · rfl
  · rw [← h]
    rfl

theorem data_region_bss (hk : segment.kind = .bss) :
    (segment.region id address content).data = none := by
  rw [region, Memory.planned, Loading.segmentPlan]
  dsimp only
  rw [if_pos hk]
  rfl

theorem data_region (id : Nat) (address : Int) (hk : segment.kind ≠ .bss) (h : content.size = segment.size) :
    (segment.region id address content).data = some content := by
  rw [region, Memory.planned, Loading.segmentPlan]
  dsimp only
  rw [if_neg hk]
  simp [Memory.plannedData, h, Bytes.zeros]

theorem region_bss (hk : segment.kind = .bss) :
    segment.region id address content = segment.region id address content' := by
  simp only [region, Loading.segmentPlan, hk, if_true]

theorem region_setData (id : Nat) (address : Int) (content : Bytes) (hk : segment.kind ≠ .bss)
    (h : content'.size = segment.size) :
    segment.region id address content' =
      { segment.region id address content with data := some content' } := by
  have hdata := data_region id address hk h
  rw [← hdata]
  simp only [region, Loading.segmentPlan, Memory.planned, if_neg hk]

theorem filled_region (h : content.size = segment.size) :
    ∀ data ∈ (segment.region id address content).data, (data.size : Int) = segment.size := by
  intro data hd
  by_cases hk : segment.kind = .bss
  · rw [data_region_bss hk] at hd
    cases hd
  · rw [data_region id address hk h] at hd
    cases hd
    exact congrArg Nat.cast h

end Segment

/-- The region of the segment with a number, unless it is empty, in an image that starts at a
base. -/
def Image.Places (image : Image) (base : Int) (contents : List Bytes) (id : Nat) (region : Region) :
    Prop :=
  ∃ (segment : Segment) (address : Int) (content : Bytes), image.segments[id]? = some segment ∧
    (image.layout base 0)[id]? = some address ∧ contents[id]? = some content ∧ segment.size ≠ 0 ∧
      region = segment.region id address content

/-- The memory holds the segments of an image that have contents and are not empty, and nothing
else. -/
structure Image.Placed (image : Image) (base : Int) (contents : List Bytes) (memory : Memory) :
    Prop where
  sound : memory.Sound
  mem_iff : ∀ region, region ∈ memory ↔ ∃ id, image.Places base contents id region

namespace Image

variable {image : Image} {base address : Int} {contents contents' : List Bytes} {memory : Memory}
  {id id' : Nat} {segment : Segment} {content content' : Bytes} {region region' : Region}

theorem places_iff (hs : image.segments[id]? = some segment)
    (ha : (image.layout base 0)[id]? = some address) (hc : contents[id]? = some content) :
    image.Places base contents id region ↔
      segment.size ≠ 0 ∧ region = segment.region id address content := by
  constructor
  · rintro ⟨segment', address', content', hs', ha', hc', h⟩
    cases hs.symm.trans hs'
    cases ha.symm.trans ha'
    cases hc.symm.trans hc'
    exact h
  · intro h
    exact ⟨segment, address, content, hs, ha, hc, h⟩

theorem places_congr (h : contents'[id]? = contents[id]?) :
    image.Places base contents' id region ↔ image.Places base contents id region := by
  rw [Places, Places, h]

theorem not_places (h : contents[id]? = none) : ¬ image.Places base contents id region := by
  rintro ⟨_, _, _, -, -, hc, -⟩
  rw [h] at hc
  cases hc

/-- The regions of two segments start at different addresses. -/
theorem Places.start_ne (h : image.Places base contents id region)
    (h' : image.Places base contents' id' region') (hne : id ≠ id') : region.start ≠ region'.start := by
  obtain ⟨segment, address, content, hs, ha, -, hpos, rfl⟩ := h
  obtain ⟨segment', address', content', hs', ha', -, hpos', rfl⟩ := h'
  rw [Segment.start_region, Segment.start_region]
  rcases Nat.lt_or_gt_of_ne hne with hlt | hlt
  · have hle := layout_le le_rfl hlt hs ha ha'
    omega
  · have hle := layout_le le_rfl hlt hs' ha' ha
    omega

theorem placed_nil (image : Image) (base : Int) : image.Placed base [] [] where
  sound := Memory.sound_nil
  mem_iff region := by
    simp [not_places]

theorem exists_places_take (hs : image.segments[id]? = some segment)
    (ha : (image.layout base 0)[id]? = some address) (hc : contents[id]? = some content) :
    (∃ id', image.Places base (contents.take (id + 1)) id' region) ↔
      (segment.size ≠ 0 ∧ region = segment.region id address content) ∨
        ∃ id', image.Places base (contents.take id) id' region := by
  have hself : image.Places base (contents.take (id + 1)) id region ↔
      segment.size ≠ 0 ∧ region = segment.region id address content :=
    places_iff hs ha (by rwa [List.getElem?_take_of_lt (Nat.lt_succ_self id)])
  have hother : ∀ id', id' ≠ id → (image.Places base (contents.take (id + 1)) id' region ↔
      image.Places base (contents.take id) id' region) := by
    intro id' hne
    refine places_congr ?_
    rw [List.getElem?_take, List.getElem?_take]
    split_ifs <;> first | rfl | omega
  have hnone : ¬ image.Places base (contents.take id) id region :=
    not_places (by rw [List.getElem?_take, if_neg (Nat.lt_irrefl id)])
  rw [← hself]
  constructor
  · rintro ⟨id', h⟩
    by_cases hid : id' = id
    · exact Or.inl (hid ▸ h)
    · exact Or.inr ⟨id', (hother id' hid).mp h⟩
  · rintro (h | ⟨id', h⟩)
    · exact ⟨id, h⟩
    · have hid : id' ≠ id := by
        rintro rfl
        exact hnone h
      exact ⟨id', (hother id' hid).mpr h⟩

/-- The next segment lies behind all those before it. -/
theorem Placed.apart (segment : Segment) (content : Bytes)
    (hp : image.Placed base (contents.take id) memory)
    (ha : (image.layout base 0)[id]? = some address) :
    ∀ other ∈ memory, (segment.region id address content).Apart other := by
  intro other hm
  obtain ⟨id', segment', address', content', hs', ha', hc', -, rfl⟩ := (hp.mem_iff other).mp hm
  have hlt : id' < id := by
    rw [List.getElem?_take] at hc'
    split at hc'
    · assumption
    · cases hc'
  have hle := layout_le le_rfl hlt hs' ha' ha
  rw [Int.add_zero] at hle
  exact Or.inr (by rwa [Segment.stop_region, Segment.start_region])

/-- A change of a content that no region has is none. -/
theorem Placed.set (hp : image.Placed base contents memory)
    (hs : image.segments[id]? = some segment) (ha : (image.layout base 0)[id]? = some address)
    (hc : contents[id]? = some content) (hb : segment.size = 0 ∨ segment.kind = .bss) :
    image.Placed base (contents.set id content') memory := by
  have hlt : id < contents.length := (List.getElem?_eq_some_iff.mp hc).1
  refine ⟨hp.sound, fun region ↦ (hp.mem_iff region).trans (exists_congr fun id' ↦ ?_)⟩
  by_cases hid : id' = id
  · subst hid
    rw [places_iff hs ha hc, places_iff hs ha (List.getElem?_set_self hlt)]
    refine and_congr_right fun hpos ↦ ?_
    rw [Segment.region_bss (hb.resolve_left hpos)]
  · exact places_congr (List.getElem?_set_ne (Ne.symm hid)).symm

/-- A segment whose bytes are replaced by as many others. -/
theorem Placed.write (hp : image.Placed base contents memory)
    (hs : image.segments[id]? = some segment) (ha : (image.layout base 0)[id]? = some address)
    (hc : contents[id]? = some content) (hpos : segment.size ≠ 0) (hk : segment.kind ≠ .bss)
    (hsize : content.size = segment.size) (hsize' : content'.size = segment.size) :
    memory.write address content' = .ok (memory.update (segment.region id address content')) ∧
      (memory.update (segment.region id address content')).map Region.shape =
        memory.map Region.shape ∧
      image.Placed base (contents.set id content')
        (memory.update (segment.region id address content')) := by
  have hplaces : image.Places base contents id (segment.region id address content) :=
    (places_iff hs ha hc).mpr ⟨hpos, rfl⟩
  have hmem := (hp.mem_iff _).mpr ⟨id, hplaces⟩
  have hdata := Segment.data_region id address hk hsize
  have hnew := Segment.region_setData id address content hk hsize'
  have hfilled : (content'.size : Int) = (segment.region id address content).size := by
    rw [Segment.size_region, hsize']
  have hset : (contents.set id content')[id]? = some content' :=
    List.getElem?_set_self (List.getElem?_eq_some_iff.mp hc).1
  have hwrite := Memory.write_region hp.sound hmem hdata hfilled
  have hsound := hp.sound.setData hmem hfilled
  have hshape := Memory.shape_update hp.sound hmem (some content')
  rw [← hnew] at hwrite hsound hshape
  rw [Segment.start_region] at hwrite
  refine ⟨hwrite, hshape, hsound, fun region ↦ ?_⟩
  constructor
  · intro hm
    rcases Memory.of_mem_update hm with rfl | ⟨hm, hne⟩
    · exact ⟨id, (places_iff hs ha hset).mpr ⟨hpos, rfl⟩⟩
    · obtain ⟨id', h⟩ := (hp.mem_iff _).mp hm
      have hid : id' ≠ id := by
        rintro rfl
        rw [places_iff hs ha hc] at h
        simp [h.2] at hne
      exact ⟨id', (places_congr (List.getElem?_set_ne (Ne.symm hid))).mpr h⟩
  · rintro ⟨id', h⟩
    by_cases hid : id' = id
    · subst hid
      rw [places_iff hs ha hset] at h
      rw [h.2]
      exact Memory.mem_update_self hmem (by simp)
    · have hne := h.start_ne hplaces hid
      rw [places_congr (List.getElem?_set_ne (Ne.symm hid))] at h
      refine Memory.mem_update_of_ne ((hp.mem_iff _).mpr ⟨id', h⟩) ?_
      simpa using hne

end Image

namespace Loading

variable {ρ : Type} {loading loading' : Loading ρ} {image : Image} {buffers : List Bytes}
  {base : Int}

theorem createSegment_placed (hf : image.Filled buffers) {id : Nat} {segment : Segment}
    {address : Int} {data : Bytes} (hs : image.segments[id]? = some segment)
    (ha : (image.layout base 0)[id]? = some address) (hd : buffers[id]? = some data)
    (hrel : loading.host.Reliable)
    (hp : image.Placed base (buffers.take id) loading.host.program.memory)
    (hr : run (createSegment id segment address data) loading = (.ok (), loading')) :
    loading'.host.Reliable ∧
      image.Placed base (buffers.take (id + 1)) loading'.host.program.memory := by
  have hsize := hf.size id segment data hs hd
  rw [createSegment] at hr
  split at hr <;> rename_i hzero
  · rw [Action.run_debug] at hr
    cases hr
    refine ⟨hrel, hp.sound, fun region ↦ ?_⟩
    rw [Image.exists_places_take hs ha hd, hp.mem_iff]
    simp [hzero]
  · have hapart := hp.apart segment data ha
    have hpos : (0 : Int) < segment.size := by omega
    have hcreate := Memory.create_apart (Segment.plannedSize_segmentPlan hsize) hpos hapart
    rw [Action.run_bind, run_createBlock hrel, hcreate] at hr
    cases hr
    refine ⟨hrel, hp.sound.insert hpos (Segment.filled_region hsize) hapart, fun region ↦ ?_⟩
    rw [Image.exists_places_take hs ha hd, ← hp.mem_iff]
    refine Memory.mem_insert.trans (or_congr_left ?_)
    exact (and_iff_right hzero).symm

/-- Segments are placed one after the other, so they never overlap. -/
theorem createSegments_placed (hf : image.Filled buffers) (hrel : loading.host.Reliable)
    (hempty : loading.host.program.memory = [])
    (hr : run (eachSegment image (image.layout base 0) buffers createSegment) loading =
      (.ok (), loading')) :
    loading'.host.Reliable ∧ image.Placed base buffers loading'.host.program.memory := by
  have hinv := eachSegment_invariant (fun n loading ↦ loading.host.Reliable ∧
    image.Placed base (buffers.take n) loading.host.program.memory) (Image.length_layout ..) hf.length
    (fun id segment address data loading loading' hs ha hd hI hstep ↦
      createSegment_placed hf hs ha hd hI.1 hI.2 hstep.1)
    ⟨hrel, by rw [hempty]; exact Image.placed_nil image _⟩ (.of_run hr)
  rwa [List.take_of_length_le hf.length.le] at hinv

/-- The contents that memory has when those of the first segments have been written back. -/
def WrittenUpTo (n : Nat) (before after contents : List Bytes) : Prop :=
  ∀ id, contents[id]? = if id < n then after[id]? else before[id]?

theorem WrittenUpTo.set {n : Nat} {before after contents : List Bytes} {data : Bytes}
    (h : WrittenUpTo n before after contents) (hd : after[n]? = some data)
    (hc : n < contents.length) : WrittenUpTo (n + 1) before after (contents.set n data) := by
  intro id
  by_cases hid : id = n
  · rw [hid, List.getElem?_set_self hc, if_pos (Nat.lt_succ_self n), hd]
  · rw [List.getElem?_set_ne (Ne.symm hid), h id]
    split_ifs <;> first | rfl | omega

theorem WrittenUpTo.same {n : Nat} {before after contents : List Bytes}
    (h : WrittenUpTo n before after contents) (hs : after[n]? = before[n]?) :
    WrittenUpTo (n + 1) before after contents := by
  intro id
  rw [h id]
  by_cases hid : id = n
  · rw [hid, if_neg (Nat.lt_irrefl n), if_pos (Nat.lt_succ_self n), hs]
  · split_ifs <;> first | rfl | omega

variable {before after contents : List Bytes} {memory : Memory}

theorem writeBack_placed (hb : image.Filled before) (ha : image.Filled after) {id : Nat}
    {segment : Segment} {address : Int} {data : Bytes} (hs : image.segments[id]? = some segment)
    (hl : (image.layout base 0)[id]? = some address) (hd : after[id]? = some data)
    (hsame : segment.references = [] → after[id]? = before[id]?)
    (hw : WrittenUpTo id before after contents) (hrel : loading.host.Reliable)
    (hp : image.Placed base contents loading.host.program.memory)
    (hr : run (writeBack id segment address data) loading = (.ok (), loading')) :
    ∃ memory contents', loading' = loading.withMemory memory ∧
      memory.map Region.shape = loading.host.program.memory.map Region.shape ∧
      WrittenUpTo (id + 1) before after contents' ∧ image.Placed base contents' memory := by
  have hid : id < before.length := by
    have hlt := (List.getElem?_eq_some_iff.mp hs).1
    rwa [hb.length]
  have hbefore : before[id]? = some before[id] := List.getElem?_eq_getElem hid
  have hc : contents[id]? = some before[id] := by
    rw [hw id, if_neg (Nat.lt_irrefl id), hbefore]
  have hlt : id < contents.length := (List.getElem?_eq_some_iff.mp hc).1
  have hsize := hb.size id segment _ hs hbefore
  have hsize' := ha.size id segment data hs hd
  rw [writeBack] at hr
  split at hr <;> rename_i hreferences
  · cases hr
    exact ⟨_, contents, rfl, rfl, hw.same (hsame (List.isEmpty_iff.mp hreferences)), hp⟩
  · split at hr <;> rename_i hk
    · rw [Action.run_warn] at hr
      cases hr
      exact ⟨_, _, rfl, rfl, hw.set hd hlt, hp.set hs hl hc (Or.inr hk)⟩
    · rw [run_annotate, Host.run_setBytes hrel] at hr
      by_cases hzero : segment.size = 0
      · have hset : image.Placed base (contents.set id data) loading.host.program.memory :=
          hp.set hs hl hc (Or.inl hzero)
        cases hwrite : loading.host.program.memory.write address data with
        | error e =>
          rw [hwrite] at hr
          cases hr
          exact ⟨_, _, rfl, rfl, hw.set hd hlt, hset⟩
        | ok memory =>
          rw [hwrite] at hr
          cases hr
          obtain rfl := hp.sound.write_nil (hsize'.trans hzero) hwrite
          exact ⟨_, _, rfl, rfl, hw.set hd hlt, hset⟩
      · obtain ⟨hwrite, hshape, hplaced⟩ := hp.write hs hl hc hzero hk hsize hsize'
        rw [hwrite] at hr
        cases hr
        exact ⟨_, _, rfl, hshape, hw.set hd hlt, hplaced⟩

/-- After the segments with references have been written back, memory holds the patched bytes of all
segments. -/
theorem writeBacks_placed (hb : image.Filled before) (ha : image.Filled after)
    (hsame : ∀ (id : Nat) (segment : Segment), image.segments[id]? = some segment →
      segment.references = [] → after[id]? = before[id]?)
    (hrel : loading.host.Reliable) (hp : image.Placed base before loading.host.program.memory)
    (hr : run (eachSegment image (image.layout base 0) after writeBack) loading = (.ok (), loading')) :
    ∃ memory, loading' = loading.withMemory memory ∧
      memory.map Region.shape = loading.host.program.memory.map Region.shape ∧
      image.Placed base after memory := by
  have hstart : WrittenUpTo 0 before after before := fun id ↦ by
    rw [if_neg (Nat.not_lt_zero id)]
  have hinv := eachSegment_invariant (fun n loading' ↦ ∃ memory contents,
      loading' = loading.withMemory memory ∧
        memory.map Region.shape = loading.host.program.memory.map Region.shape ∧
        WrittenUpTo n before after contents ∧ image.Placed base contents memory)
    (Image.length_layout ..) ha.length
    (by
      rintro id segment address data _ _ hs hl hd ⟨memory, contents, rfl, hshape, hw, hplaced⟩ hstep
      have hrel' : (loading.withMemory memory).host.Reliable := hrel.withMemory memory
      obtain ⟨memory', contents', rfl, hshape', hw', hplaced'⟩ := writeBack_placed hb ha hs hl hd
        (hsame id segment hs) hw hrel' hplaced hstep.1
      exact ⟨memory', contents', rfl, hshape'.trans hshape, hw', hplaced'⟩)
    ⟨_, before, rfl, rfl, hstart, hp⟩ (.of_run hr)
  obtain ⟨memory, contents, hloading, hshape, hw, hplaced⟩ := hinv
  have hcontents : contents = after := by
    refine List.ext_getElem? fun id ↦ ?_
    rw [hw id]
    split_ifs with hlt
    · rfl
    · rw [List.getElem?_eq_none (by rw [hb.length]; omega),
        List.getElem?_eq_none (by rw [ha.length]; omega)]
  exact ⟨memory, hloading, hshape, hcontents ▸ hplaced⟩

end Loading

end Hunks
