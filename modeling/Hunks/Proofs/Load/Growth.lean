import Mathlib
import Hunks.Proofs.Load
import Hunks.Proofs.Load.Materialize

namespace Hunks

open Hunks.Action (run runs_bind Runs)

namespace LoadResult

/-- The slots of absolute values that a load minted, behind their addresses. -/
def defSlots (result : LoadResult) : List (Int × Slot) :=
  (result.linkage.map fun linkage ↦ linkage.defs.minted).getD []

/-- The slots for names without a definition that a load minted, behind their addresses. -/
def refSlots (result : LoadResult) : List (Int × Slot) :=
  (result.linkage.map fun linkage ↦ linkage.refs.minted).getD []

def slots (result : LoadResult) : List (Int × Slot) :=
  result.defSlots ++ result.refSlots

variable {result : LoadResult} {defs refs : SlotStore} {entryPoints : List Int} {address : Int}
  {slot : Slot}

theorem defSlots_eq (h : result.linkage = some ⟨defs, refs, entryPoints⟩) :
    result.defSlots = defs.minted := by
  rw [defSlots, h]
  rfl

theorem mem_slots (h : result.linkage = some ⟨defs, refs, entryPoints⟩) :
    (address, slot) ∈ result.slots ↔ (address, slot) ∈ defs.minted ∨ (address, slot) ∈ refs.minted := by
  rw [slots, List.mem_append, defSlots, refSlots, h]
  rfl

theorem isSome_name (h : (address, slot) ∈ result.slots) : slot.name.isSome := by
  rw [slots, List.mem_append, defSlots, refSlots] at h
  cases hl : result.linkage with
  | none => simp [hl] at h
  | some linkage =>
    rw [hl] at h
    rcases h with h | h
    all_goals
      obtain ⟨_, _, hname, _⟩ := SlotStore.mem_minted.mp h
      exact hname

end LoadResult

namespace Host

variable {host host' : Host} {results : List LoadResult} {result : LoadResult}

/-- The slots of loads have addresses of their own, which are those of their names, and lie in memory,
those of absolute values with the values. -/
structure HasSlots (host : Host) (results : List LoadResult) : Prop where
  nodup : ((results.flatMap LoadResult.slots).map Prod.fst).Nodup
  labels : ∀ result ∈ results, ∀ address slot, (address, slot) ∈ result.slots →
    ∀ name ∈ slot.name, host.program.address? name = some address
  covers : ∀ result ∈ results, ∀ address slot, (address, slot) ∈ result.slots →
    host.program.memory.Covers address SlotStore.slotSize
  values : ∀ result ∈ results, ∀ address slot, (address, slot) ∈ result.defSlots →
    ∃ value, slot.value = some value ∧ host.program.memory.Holds address (Bytes.long value)

theorem hasSlots_nil (host : Host) : host.HasSlots [] where
  nodup := List.nodup_nil
  labels := by simp
  covers := by simp
  values := by simp

/-- Slots stay in whatever extends a program. -/
theorem HasSlots.mono (h : host.HasSlots results) (hs : host.program.memory.Sound)
    (he : host'.Extends host.program) : host'.HasSlots results where
  nodup := h.nodup
  labels result hr address slot hm name hn := he.labels _ _ (h.labels result hr address slot hm name hn)
  covers result hr address slot hm := he.memory.covers (h.covers result hr address slot hm)
  values result hr address slot hm := by
    obtain ⟨value, hvalue, hholds⟩ := h.values result hr address slot hm
    exact ⟨value, hvalue, he.memory.holds hs hholds⟩

/-- New slots differ from those of a program that has nothing at their places. -/
theorem HasSlots.append (h : host.HasSlots results) (h' : host'.HasSlots results)
    (hnew : host'.HasSlots [result])
    (hclear : ∀ address slot, (address, slot) ∈ result.slots →
      host.program.memory.Clear address SlotStore.slotSize) :
    host'.HasSlots (results ++ [result]) where
  nodup := by
    rw [List.flatMap_append, List.map_append, List.nodup_append]
    refine ⟨h.nodup, hnew.nodup, ?_⟩
    rintro address hold _ hlast rfl
    obtain ⟨⟨_, slot⟩, hm, rfl⟩ := List.mem_map.mp hold
    obtain ⟨earlier, hearlier, hm⟩ := List.mem_flatMap.mp hm
    obtain ⟨⟨_, slot'⟩, hm', rfl⟩ := List.mem_map.mp hlast
    rw [List.flatMap_singleton] at hm'
    exact (h.covers earlier hearlier _ slot hm).not_clear (by decide) (hclear _ slot' hm')
  labels := by
    simp only [List.forall_mem_append]
    exact ⟨h'.labels, hnew.labels⟩
  covers := by
    simp only [List.forall_mem_append]
    exact ⟨h'.covers, hnew.covers⟩
  values := by
    simp only [List.forall_mem_append]
    exact ⟨h'.values, hnew.values⟩

variable {defs refs : SlotStore} {entryPoints : List Int} {before middle after : Memory}

/-- What a load keeps of its two stores, the second of which was brought into memory behind the
first. -/
theorem hasSlots_of_materialized (h : result.linkage = some ⟨defs, refs, entryPoints⟩)
    (hdefs : defs.Materialized before middle) (hrefs : refs.Materialized middle after)
    (hinit : defs.initialized)
    (hvalues : ∀ slot ∈ defs.slots, slot.name.isSome → slot.value.isSome)
    (hl : defs.Labelled host.program) (hl' : refs.Labelled host.program) (hs : middle.Sound)
    (hk : middle.Keeps host.program.memory) (hk' : after.Keeps host.program.memory) :
    host.HasSlots [result] := by
  constructor
  case nodup =>
    have hslots : result.slots = defs.minted ++ refs.minted := by
      rw [LoadResult.slots, LoadResult.defSlots, LoadResult.refSlots, h]
      rfl
    rw [List.flatMap_singleton, hslots, List.map_append, List.nodup_append]
    refine ⟨defs.nodup_minted, refs.nodup_minted, ?_⟩
    rintro address hd _ hr rfl
    obtain ⟨⟨_, slot⟩, hm, rfl⟩ := List.mem_map.mp hd
    obtain ⟨⟨_, slot'⟩, hm', rfl⟩ := List.mem_map.mp hr
    exact (hdefs.covers _ slot hm).not_clear (by decide) (hrefs.clear _ slot' hm')
  case labels =>
    simp only [List.mem_singleton, forall_eq]
    intro address slot hm name hn
    rcases (LoadResult.mem_slots h).mp hm with hm | hm
    · exact hl address slot hm name hn
    · exact hl' address slot hm name hn
  case covers =>
    simp only [List.mem_singleton, forall_eq]
    intro address slot hm
    rcases (LoadResult.mem_slots h).mp hm with hm | hm
    · exact hk.covers (hdefs.covers address slot hm)
    · exact hk'.covers (hrefs.covers address slot hm)
  case values =>
    simp only [List.mem_singleton, forall_eq]
    intro address slot hm
    rw [LoadResult.defSlots_eq h] at hm
    obtain ⟨i, hslot, hname, -⟩ := SlotStore.mem_minted.mp hm
    obtain ⟨value, hvalue⟩ :=
      Option.isSome_iff_exists.mp (hvalues slot (Array.mem_of_getElem? hslot) hname)
    have hholds := hdefs.holds hinit address slot hm
    rw [hvalue, Option.getD_some] at hholds
    exact ⟨value, hvalue, hk.holds hs hholds⟩

theorem longs_stable : Stable fun host ↦ host.Reliable ∧ host.program.memory.Longs where
  reliable _ h := h.1
  relabel host program h hm _ := ⟨h.1, by rw [hm]; exact h.2⟩
  create host _ region memory h _ hsize hcreated := by
    obtain ⟨n, hn⟩ := hsize
    refine ⟨h.1, ?_⟩
    show memory.Longs
    rw [hcreated.memory]
    exact h.2.insert hn

end Host

/-- A linker that went on from a host leaves as they are the regions that the host has kept. -/
theorem Linker.Continues.extends {linker : Linker} {host : Host} {program : Program}
    (h : linker.Continues host.program) (he : host.Extends program) :
    linker.host.Extends { linker.host.program with memory := program.memory } where
  reliable := h.reliable
  sound := by
    rw [h.memory]
    exact he.sound
  memory := by
    rw [h.memory]
    exact he.memory
  labels _ _ ha := ha

namespace Loading

variable {ρ : Type} {loading loading' : Loading ρ} {loader : Loader ρ} {data : Bytes}
  {result : LoadResult} {image : Image} {buffers : List Bytes} {base : Int} {hunks : List Hunk}
  {program : Program}

/-- A program has nothing at the places of the segments of an image. -/
def Vacant (program : Program) (image : Image) (base : Int) : Prop :=
  ∀ (id : Nat) (segment : Segment) (address : Int), image.segments[id]? = some segment →
    (image.layout base 0)[id]? = some address → segment.size ≠ 0 →
    program.memory.Clear address segment.size

/-- A segment that is not empty is created where the program has nothing. -/
theorem createSegment_clear {id : Nat} {segment : Segment} {address : Int} {content : Bytes}
    (hsize : content.size = segment.size) (hn : ∃ n : Nat, segment.size = n * 4)
    (h : loading.Extends program) (hl : loading.host.program.memory.Longs)
    (hr : Runs Unfailing (createSegment id segment address content) loading () loading') :
    loading'.Extends program ∧ loading'.host.program.memory.Longs ∧
      (segment.size ≠ 0 → program.memory.Clear address segment.size) := by
  rw [createSegment] at hr
  split at hr <;> rename_i hzero
  · cases hr.1
    exact ⟨h, hl, fun hne ↦ absurd hzero hne⟩
  · obtain ⟨_, _, hcreate, hlast⟩ := runs_bind.mp hr
    obtain ⟨region, memory, rfl, rfl, hcreated⟩ := runs_createBlock h.reliable hcreate
    cases hlast.1
    have hplan : (segmentPlan id segment address content).data = none ∨
        (segmentPlan id segment address content).size = none := by
      rw [segmentPlan]
      split
      · exact Or.inl rfl
      · exact Or.inr rfl
    have hplanned : Memory.plannedSize (segmentPlan id segment address content) =
        .ok (segment.size : Int) := Segment.plannedSize_segmentPlan hsize
    have hregion : region.size = segment.size := Except.ok.inj (hcreated.size.symm.trans hplanned)
    have hstart : region.start = address := hcreated.start.trans Segment.start_region
    refine ⟨h.withMemory (hcreated.sound hplan h.sound) (hcreated.keeps h.memory), ?_, fun _ old hm ↦ ?_⟩
    · show memory.Longs
      obtain ⟨n, hn⟩ := hn
      rw [hcreated.memory]
      refine hl.insert (n := n) ?_
      rw [hregion, hn]
      rfl
    · have ha := hcreated.apart_old h.memory hm
      simp only [Region.Apart, Region.stop] at ha ⊢
      omega

theorem createSegments_vacant (hf : image.Filled buffers) (hi : image.IsRead data hunks)
    (hrel : loading.host.Reliable) (hs : loading.host.program.memory.Sound)
    (hl : loading.host.program.memory.Longs)
    (hr : Runs Unfailing (eachSegment image (image.layout base 0) buffers createSegment) loading ()
      loading') :
    loading'.Extends loading.host.program ∧ loading'.host.program.memory.Longs ∧
      Vacant loading.host.program image base := by
  have hinv := eachSegment_invariant (fun n (last : Loading ρ) ↦
    last.Extends loading.host.program ∧ last.host.program.memory.Longs ∧
      ∀ (id : Nat) (segment : Segment) (address : Int), id < n → image.segments[id]? = some segment →
        (image.layout base 0)[id]? = some address → segment.size ≠ 0 →
        loading.host.program.memory.Clear address segment.size) (Image.length_layout ..) hf.length ?_
    ⟨Host.Extends.refl hrel hs, hl, by simp⟩ hr
  · obtain ⟨hextends, hlongs, hclear⟩ := hinv
    exact ⟨hextends, hlongs, fun id segment address hsegment ↦
      hclear id segment address (List.getElem?_eq_some_iff.mp hsegment).1 hsegment⟩
  intro id segment address content middle last hsegment haddress hcontent hI hstep
  obtain ⟨hextends, hlongs, hclear⟩ := hI
  obtain ⟨hextends', hlongs', hself⟩ := createSegment_clear
    (hf.size id segment content hsegment hcontent) (hi.long_size (List.mem_of_getElem? hsegment))
    hextends hlongs hstep
  refine ⟨hextends', hlongs', fun id' segment' address' hid hsegment' haddress' ↦ ?_⟩
  by_cases hlast : id' = id
  · subst hlast
    cases hsegment.symm.trans hsegment'
    cases haddress.symm.trans haddress'
    exact hself
  · exact hclear id' segment' address' (by omega) hsegment' haddress'

/-- A patched segment is written where the program has nothing, and an empty one not at all. -/
theorem writeBack_extends {id : Nat} {segment : Segment} {address : Int} {content : Bytes}
    (hs : program.memory.Sound) (hsize : content.size = segment.size)
    (hclear : segment.size ≠ 0 → program.memory.Clear address segment.size)
    (h : loading.Extends program)
    (hr : run (writeBack id segment address content) loading = (.ok (), loading')) :
    loading'.Extends program ∧ loading'.host.program.memory.map Region.shape =
      loading.host.program.memory.map Region.shape := by
  rw [writeBack] at hr
  split at hr
  · cases hr
    exact ⟨h, rfl⟩
  · split at hr
    · rw [Action.run_warn] at hr
      cases hr
      exact ⟨h, rfl⟩
    · rw [run_annotate, Host.run_setBytes h.reliable] at hr
      cases hw : loading.host.program.memory.write address content with
      | error e =>
        rw [hw] at hr
        cases hr
        exact ⟨h, rfl⟩
      | ok memory =>
        rw [hw] at hr
        cases hr
        refine ⟨?_, Memory.shape_write h.sound hw⟩
        by_cases hzero : segment.size = 0
        · obtain rfl := h.sound.write_nil (hsize.trans hzero) hw
          exact h
        · have hclear := hclear hzero
          rw [← hsize] at hclear
          exact h.withMemory (h.sound.write hw) (h.memory.write h.sound hs hw hclear)

theorem writeBacks_extends (hs : program.memory.Sound) (hf : image.Filled buffers)
    (hv : Vacant program image base) (h : loading.Extends program)
    (hr : run (eachSegment image (image.layout base 0) buffers writeBack) loading = (.ok (), loading')) :
    loading'.Extends program ∧ loading'.host.program.memory.map Region.shape =
      loading.host.program.memory.map Region.shape := by
  refine eachSegment_invariant (fun _ (last : Loading ρ) ↦ last.Extends program ∧
    last.host.program.memory.map Region.shape = loading.host.program.memory.map Region.shape)
    (Image.length_layout ..) hf.length ?_ ⟨h, rfl⟩ (.of_run hr)
  intro id segment address content middle last hsegment haddress hcontent hI hstep
  obtain ⟨hextends, hshape⟩ := hI
  obtain ⟨hextends', hshape'⟩ := writeBack_extends hs (hf.size id segment content hsegment hcontent)
    (hv id segment address hsegment haddress) hextends hstep.1
  exact ⟨hextends', hshape'.trans hshape⟩

/-- What a load adds to a program: the slots of its result, at places where there was nothing. -/
structure Grown (before after : Host) (result : LoadResult) : Prop where
  kept : after.Extends before.program
  longs : after.program.memory.Longs
  slots : after.HasSlots [result]
  clear : ∀ address slot, (address, slot) ∈ result.slots →
    before.program.memory.Clear address SlotStore.slotSize

theorem Stages.grown {file : File} {relocated : List Bytes} {linker : Linker}
    {start created linked written defined referred : Loading ρ}
    (h : Stages Unfailing loader file image relocated linker start created linked written defined
      referred loading result)
    (hi : image.IsRead data hunks) (hrel : start.host.Reliable)
    (hs : start.host.program.memory.Sound) (hl : start.host.program.memory.Longs) :
    Grown start.host loading.host result := by
  have hbefore : image.Filled relocated := hi.filled (congrArg Prod.fst h.relocation)
  obtain ⟨hcreated, hlongs, hvacant⟩ := createSegments_vacant hbefore hi hrel hs hl h.creation
  obtain ⟨rfl, hlinker, hpatched⟩ := runLinker_linked hcreated.reliable hlongs
    (fun _ hm _ hr _ ho ↦ hi.offset_nonneg hm hr ho) hbefore h.linkage
  -- the labels of the link on the memory that was there before the load
  set program : Program := { linker.host.program with memory := start.host.program.memory }
  have hsound : program.memory.Sound := hs
  have hlinked : Extends program { created with host := linker.host } := hlinker.extends hcreated
  obtain ⟨hwritten, hshape⟩ :=
    writeBacks_extends hsound (hpatched.filled hbefore) hvacant hlinked h.writing
  have hmemory : written.host.program.memory.map Region.shape =
      created.host.program.memory.map Region.shape := hshape.trans (congrArg _ hlinker.memory)
  obtain ⟨hdefined, hdefs⟩ := materialize_materialized hwritten.reliable hwritten.sound
    (hlongs.of_shape hmemory) (hlinker.defs.of_shape hmemory) h.definition
  have hnames : linker.refs.name ≠ linker.defs.name := by
    rw [hlinker.refsName, hlinker.defsName]
    decide
  obtain ⟨hreferred, hrefs⟩ := materialize_materialized hdefined.reliable hdefined.sound hdefs.longs
    ((hlinker.refs.of_shape hmemory).congr (hdefs.others _ hnames)) h.reference
  have hlast : loading.host.Extends referred.host.program :=
    h.rest (Host.extends_stable _) (Host.Extends.refl hreferred.reliable hreferred.sound)
  have hlast' : loading.host.Extends defined.host.program := hlast.trans hreferred
  have hold : defined.host.Extends program := hdefined.trans hwritten
  have hkept : loading.host.Extends program := hlast'.trans hold
  constructor
  case kept =>
    exact ⟨hkept.reliable, hkept.sound, hkept.memory, fun name address ha ↦
      hkept.labels name address (hlinker.labels _ _ (hcreated.labels _ _ ha))⟩
  case longs => exact (h.rest Host.longs_stable ⟨hreferred.reliable, hrefs.longs⟩).2
  case slots =>
    exact Host.hasSlots_of_materialized h.stores hdefs hrefs hlinker.initialized
      hlinker.settled.values (hlinker.settled.defs.mono hkept.labels)
      (hlinker.settled.refs.mono hkept.labels) hdefined.sound hlast'.memory hlast.memory
  case clear =>
    intro address slot hm
    rcases (LoadResult.mem_slots h.stores).mp hm with hm | hm
    · exact hwritten.memory.clear (hdefs.clear address slot hm)
    · exact hold.memory.clear (hrefs.clear address slot hm)

end Loading

end Hunks
