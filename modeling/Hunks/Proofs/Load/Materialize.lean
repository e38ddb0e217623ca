import Mathlib
import Hunks.Proofs.Link.Minted
import Hunks.Proofs.Load.Slots

namespace Hunks

open Hunks.Action (run runs_bind Runs)

/-- A report that does not say that an operation of the host failed. -/
def Unfailing (report : Report) : Prop :=
  ∀ e : HostError, report ≠ ⟨.warning, e.message⟩

theorem Unfailing.of_level {report : Report} (h : report.level ≠ .warning) : Unfailing report := by
  rintro e rfl
  exact h rfl

/-- One region has room for all slots of a store from its base on, and other regions are as they
were. -/
structure SlotStore.Housed (store : SlotStore) (before after : Memory) : Prop where
  longs : after.Longs
  others : ∀ name, name ≠ store.name → after.named? name = before.named? name
  region : ∃ region ∈ after, region.start = store.base ∧ (store.size : Int) ≤ region.size

/-- The slots that a store minted lie in memory, where there was nothing before, and those with values
hold them. -/
structure SlotStore.Materialized (store : SlotStore) (before after : Memory) : Prop where
  longs : after.Longs
  others : ∀ name, name ≠ store.name →
    (after.named? name).map Region.shape = (before.named? name).map Region.shape
  clear : ∀ address slot, (address, slot) ∈ store.minted → before.Clear address SlotStore.slotSize
  covers : ∀ address slot, (address, slot) ∈ store.minted → after.Covers address SlotStore.slotSize
  holds : store.initialized → ∀ address slot, (address, slot) ∈ store.minted →
    after.Holds address (Bytes.long (slot.value.getD 0))

namespace Loading

variable {ρ α : Type} {loading loading' : Loading ρ} {loader : Loader ρ} {store : SlotStore}

/-- An operation that no report says failed has given its result. -/
theorem runs_attempt {operation : Operation} {address : Int} {x : Host.Access α} {found : Option α}
    (hr : Runs Unfailing (attempt operation address x) loading found loading') :
    ∃ a host, found = some a ∧ run x loading.host = (.ok a, host) ∧
      loading' = { loading with host } := by
  rw [attempt, runs_bind] at hr
  obtain ⟨answer, middle, ⟨hanswer, -⟩, hr⟩ := hr
  rw [Action.run_focus, Action.run_attempt, Host.call, Action.run_mapError] at hanswer
  rcases hx : run x loading.host with ⟨e | a, host⟩
  · rw [hx] at hanswer
    cases hanswer
    obtain ⟨_, _, hwarn, -⟩ := runs_bind.mp hr
    exact absurd rfl ((Action.runs_report.mp hwarn).2 ⟨operation, some address, e⟩)
  · rw [hx] at hanswer
    cases hanswer
    cases hr.1
    exact ⟨a, host, rfl, rfl, rfl⟩

theorem runs_annotate {operation : Operation} {address : Int} {x : Host.Access α}
    (hr : Runs Unfailing (annotate operation address x) loading () loading') :
    ∃ a host, run x loading.host = (.ok a, host) ∧ loading' = { loading with host } := by
  obtain ⟨found, middle, hattempt, hr⟩ := runs_bind.mp hr
  cases hr.1
  obtain ⟨a, host, -, hx, rfl⟩ := runs_attempt hattempt
  exact ⟨a, host, hx, rfl⟩

theorem runs_createBlock (hrel : loading.host.Reliable) {plan : Region.Plan} {found : Option Region}
    (hr : Runs Unfailing (createBlock plan) loading found loading') :
    ∃ region memory, found = some region ∧ loading' = loading.withMemory memory ∧
      Memory.Created plan loading.host.program.memory region memory := by
  obtain ⟨region, host, rfl, hcreate, rfl⟩ := runs_attempt hr
  rw [Host.run_createBlock hrel] at hcreate
  cases hc : Memory.create plan loading.host.program.memory with
  | error e =>
    rw [hc] at hcreate
    cases hcreate
  | ok created =>
    rw [hc] at hcreate
    cases hcreate
    exact ⟨_, _, rfl, rfl, Memory.create_eq_ok hc⟩

theorem runs_join (hrel : loading.host.Reliable) {address : Int} {region tail : Region}
    {found : Option Region}
    (hr : Runs Unfailing (attempt .join address (Host.join (some region) (some tail))) loading found
      loading') :
    ∃ joined memory, found = some joined ∧ loading' = loading.withMemory memory ∧
      loading.host.program.memory.join region tail = .ok (joined, memory) := by
  obtain ⟨joined, host, rfl, hjoin, rfl⟩ := runs_attempt hr
  rw [Host.join, Host.run_changeMemory hrel] at hjoin
  dsimp only at hjoin
  cases hj : loading.host.program.memory.join region tail with
  | error e =>
    rw [hj] at hjoin
    cases hjoin
  | ok result =>
    rw [hj] at hjoin
    cases hjoin
    exact ⟨_, _, rfl, rfl, rfl⟩

theorem runs_convert (hrel : loading.host.Reliable) {address : Int} {tail : Region}
    (hd : tail.data = none) {found : Option Region}
    (hr : Runs Unfailing (attempt .convert address (Host.convert (some tail) 0)) loading found loading') :
    ∃ content, found = some { tail with data := content } ∧ loading' =
      loading.withMemory (loading.host.program.memory.update { tail with data := content }) := by
  obtain ⟨converted, host, rfl, hconvert, rfl⟩ := runs_attempt hr
  rw [Host.convert, Host.run_changeMemory hrel] at hconvert
  dsimp only at hconvert
  rw [Memory.convert_blank _ hd] at hconvert
  cases hconvert
  exact ⟨_, rfl, rfl⟩

/-- New slots make their region as long as the store, and change nothing else. -/
theorem runs_extendSlots (hrel : loading.host.Reliable) (hs : loading.host.program.memory.Sound)
    {region : Region} {found : Option Region}
    (hr : Runs Unfailing (extendSlots store region) loading found loading') :
    ∃ data, found = some { region with size := store.size, data } ∧ loading' = loading.withMemory
      (loading.host.program.memory.update { region with size := store.size, data }) := by
  obtain ⟨_, _, hcreate, hr⟩ := runs_bind.mp hr
  obtain ⟨tail, memory, rfl, rfl, htail⟩ := runs_createBlock hrel hcreate
  have hsize : store.size - region.size = tail.size := Except.ok.inj htail.size
  have hsound : memory.Sound := htail.sound (Or.inl rfl) hs
  have hrel' : ∀ memory, (loading.withMemory memory).host.Reliable := hrel.withMemory
  have hjoin : ∀ content, Runs Unfailing (attempt .join region.start (Host.join (some region)
      (some { tail with data := content }))) (loading.withMemory
        (memory.update { tail with data := content })) found loading' →
      ∃ data, found = some { region with size := store.size, data } ∧ loading' = loading.withMemory
        (loading.host.program.memory.update { region with size := store.size, data }) := by
    intro content hr
    obtain ⟨joined, _, rfl, rfl, hjoin⟩ := runs_join (hrel' _) hr
    obtain ⟨hjoined, rfl⟩ := Memory.join_created hs htail hjoin
    rw [show region.size + tail.size = store.size by omega] at hjoined
    rw [hjoined]
    exact ⟨joined.data, rfl, rfl⟩
  dsimp only at hr
  split at hr
  · obtain ⟨_, _, hconvert, hr⟩ := runs_bind.mp hr
    obtain ⟨content, rfl, rfl⟩ := runs_convert (hrel' memory) htail.data hconvert
    exact hjoin content hr
  · obtain ⟨_, _, hpure, hr⟩ := runs_bind.mp hr
    cases hpure.1
    refine hjoin tail.data ?_
    rwa [show memory.update { tail with data := tail.data } = memory from hsound.update_self htail.mem]

theorem createSlots_housed (hrel : loading.host.Reliable) (hl : loading.host.program.memory.Longs)
    {found : Option Region} (hr : Runs Unfailing (createSlots store) loading found loading') :
    found.isSome ∧ store.Housed loading.host.program.memory loading'.host.program.memory := by
  have hplan : ∀ plan : Region.Plan, plan.name = store.name → plan.address = store.base →
      Memory.plannedSize plan = .ok (store.size : Int) →
      Runs Unfailing (createBlock plan) loading found loading' →
      found.isSome ∧ store.Housed loading.host.program.memory loading'.host.program.memory := by
    intro plan hname hbase hplanned hr
    obtain ⟨region, memory, rfl, rfl, hcreated⟩ := runs_createBlock hrel hr
    have hsize : region.size = store.size := Except.ok.inj (hcreated.size.symm.trans hplanned)
    have hmemory := hcreated.memory
    refine ⟨rfl, ?_, fun name hne ↦ ?_, region, hcreated.mem, hcreated.start.trans hbase, hsize.ge⟩
    · show memory.Longs
      rw [hmemory]
      refine hl.insert (n := store.length) ?_
      rw [hsize, SlotStore.size, Int.natCast_mul]
    · show memory.named? name = _
      rw [hmemory, Memory.named?_insert]
      rw [hcreated.name, hname]
      exact hne.symm
  rw [createSlots] at hr
  split at hr
  · refine hplan _ rfl rfl ?_ hr
    rw [← store.size_content]
    rfl
  · exact hplan _ rfl rfl rfl hr

theorem slotRegion_housed (hrel : loading.host.Reliable) (hs : loading.host.program.memory.Sound)
    (hl : loading.host.program.memory.Longs) (hstore : store.Reserved loading.host.program.memory)
    {found : Option Region} (hr : Runs Unfailing (slotRegion store) loading found loading') :
    found.isSome ∧ store.Housed loading.host.program.memory loading'.host.program.memory := by
  obtain ⟨_, _, ⟨hget, -⟩, hr⟩ := runs_bind.mp hr
  rw [run_getBlock hrel] at hget
  cases hget
  cases hn : loading.host.program.memory.named? store.name with
  | none =>
    rw [hn] at hr
    exact createSlots_housed hrel hl hr
  | some region =>
    obtain ⟨hstart, -⟩ := hstore region hn
    have hregion : region ∈ loading.host.program.memory := List.mem_of_find?_eq_some hn
    have hname : region.name = store.name := by simpa using List.find?_some hn
    rw [hn, Option.join_some] at hr
    dsimp only at hr
    split at hr <;> rename_i hlt
    · obtain ⟨data, rfl, rfl⟩ := runs_extendSlots hrel hs hr
      refine ⟨rfl, ?_, fun name hne ↦ ?_, _, Memory.mem_update_self hregion rfl, hstart, le_rfl⟩
      · refine hl.update (n := store.length) ?_
        rw [SlotStore.size, Int.natCast_mul]
      · refine Memory.named?_update (hname.trans_ne hne.symm) fun other hm hother ↦ ?_
        rw [hs.eq_of_start hm hregion hother, hname]
        exact hne.symm
    · cases hr.1
      exact ⟨rfl, hl, fun _ _ ↦ rfl, region, hregion, hstart, not_lt.mp hlt⟩

theorem runs_fillSlot (hrel : loading.host.Reliable) {slot : Slot} {i : Nat}
    (hr : Runs Unfailing (fillSlot loader store slot i) loading () loading') :
    loading'.host.Reliable ∧
      if slot.name.isSome ∧ store.initialized then
        loading.host.program.memory.write (store.addressOf i)
          (Bytes.long (slot.value.getD 0)).toArray = .ok loading'.host.program.memory
      else loading'.host.program.memory = loading.host.program.memory := by
  have hdata : ∀ middle : Loading ρ, middle.host.Reliable →
      Runs Unfailing (annotate .createData (store.addressOf i) (Host.createData (store.addressOf i)
        (loader.types.get? "dword"))) middle () loading' →
      loading'.host.Reliable ∧ loading'.host.program.memory = middle.host.program.memory := by
    intro middle hrel hr
    obtain ⟨_, host, hx, rfl⟩ := runs_annotate hr
    rw [Host.run_createData hrel] at hx
    cases hx
    exact ⟨hrel, rfl⟩
  rw [fillSlot] at hr
  split at hr <;> rename_i hname
  · dsimp only at hr
    split at hr <;> rename_i hinit
    · rw [if_pos ⟨hname, hinit⟩]
      obtain ⟨_, middle, hset, hr⟩ := runs_bind.mp hr
      obtain ⟨_, host, hx, rfl⟩ := runs_annotate hset
      rw [Host.run_setBytes hrel] at hx
      cases hw : loading.host.program.memory.write (store.addressOf i)
          (Bytes.long (slot.value.getD 0)).toArray with
      | error e =>
        rw [hw] at hx
        cases hx
      | ok memory =>
        rw [hw] at hx
        cases hx
        obtain ⟨hrel', hmemory⟩ := hdata (loading.withMemory memory) hrel hr
        exact ⟨hrel', by rw [hmemory]; rfl⟩
    · rw [if_neg (fun h ↦ hinit h.2)]
      exact hdata loading hrel hr
  · rw [if_neg (fun h ↦ hname h.1)]
    cases hr.1
    exact ⟨hrel, rfl⟩

/-- A loop over the slots writes the values of those with names, and later values do not reach
earlier ones. -/
theorem fillSlots_holds (hrel : loading.host.Reliable) (hs : loading.host.program.memory.Sound)
    (hr : Runs Unfailing (Action.forEach store.slots.toList.zipIdx fun (slot, index) ↦
      fillSlot loader store slot index) loading () loading') :
    loading'.host.program.memory.map Region.shape = loading.host.program.memory.map Region.shape ∧
      (store.initialized → ∀ address slot, (address, slot) ∈ store.minted →
        loading'.host.program.memory.Holds address (Bytes.long (slot.value.getD 0))) := by
  have hinv := Runs.forEach_invariant (fun done (last : Loading ρ) ↦ last.host.Reliable ∧
    last.host.program.memory.Sound ∧
    last.host.program.memory.map Region.shape = loading.host.program.memory.map Region.shape ∧
    (store.initialized → ∀ (i : Nat) slot, store.slots[i]? = some slot → slot.name.isSome →
      i < done.length → last.host.program.memory.Holds (store.addressOf i)
        (Bytes.long (slot.value.getD 0)))) ?_ ⟨hrel, hs, rfl, by simp⟩ hr
  · obtain ⟨-, -, hshape, hholds⟩ := hinv
    refine ⟨hshape, fun hinit address slot hm ↦ ?_⟩
    obtain ⟨i, hslot, hname, rfl⟩ := SlotStore.mem_minted.mp hm
    refine hholds hinit i slot hslot hname ?_
    rw [List.length_zipIdx, Array.length_toList]
    exact (Array.getElem?_eq_some_iff.mp hslot).1
  rintro done ⟨slot, index⟩ rest middle last hsplit ⟨hrel, hs, hshape, hholds⟩ hstep
  obtain ⟨hslot, rfl⟩ := getElem?_of_zipIdx_eq hsplit
  rw [Array.getElem?_toList] at hslot
  obtain ⟨hrel', hwrite⟩ := runs_fillSlot hrel hstep
  rw [List.length_append, List.length_singleton]
  split at hwrite <;> rename_i hnamed
  · refine ⟨hrel', hs.write hwrite, (Memory.shape_write hs hwrite).trans hshape,
      fun hinit i other hother hname hi ↦ ?_⟩
    by_cases hlast : i = done.length
    · subst hlast
      cases hother.symm.trans hslot
      exact Memory.write_holds hs hwrite
    · refine (hholds hinit i other hother hname (by omega)).write hs hwrite (Or.inl ?_)
      rw [Bytes.long, Bytes.length_ofInt]
      simp only [SlotStore.addressOf, SlotStore.slotSize]
      omega
  · rw [hwrite]
    refine ⟨hrel', hs, hshape, fun hinit i other hother hname hi ↦ ?_⟩
    by_cases hlast : i = done.length
    · subst hlast
      cases hother.symm.trans hslot
      exact absurd ⟨hname, hinit⟩ hnamed
    · exact hholds hinit i other hother hname (by omega)

theorem materialize_materialized (hrel : loading.host.Reliable)
    (hs : loading.host.program.memory.Sound) (hl : loading.host.program.memory.Longs)
    (hstore : store.Reserved loading.host.program.memory)
    (hr : Runs Unfailing (materialize loader store) loading () loading') :
    loading'.Extends loading.host.program ∧
      store.Materialized loading.host.program.memory loading'.host.program.memory := by
  have hrefl : loading.Extends loading.host.program := Host.Extends.refl hrel hs
  refine ⟨materialize_extends hs hrefl loader (fun _ ↦ hstore) hr.1, ?_⟩
  rw [materialize] at hr
  split at hr <;> rename_i hany
  · obtain ⟨found, middle, hregion, hr⟩ := runs_bind.mp hr
    obtain ⟨hextends, hclear⟩ := slotRegion_extends hs hrefl hregion.1
    obtain ⟨hsome, hhoused⟩ := slotRegion_housed hrel hs hl hstore hregion
    obtain ⟨_, rfl⟩ := Option.isSome_iff_exists.mp hsome
    obtain ⟨_, _, ⟨hinfo, -⟩, hr⟩ := runs_bind.mp hr
    cases hinfo
    obtain ⟨hshape, hholds⟩ := fillSlots_holds hextends.reliable hextends.sound hr
    constructor
    case longs => exact hhoused.longs.of_shape hshape
    case others =>
      intro name hne
      rw [Memory.named?_shape, hshape, ← Memory.named?_shape, hhoused.others name hne]
    case clear =>
      intro address slot hm
      obtain ⟨i, hslot, hname, rfl⟩ := SlotStore.mem_minted.mp hm
      exact hclear hsome hstore i slot hslot hname
    case covers =>
      intro address slot hm
      obtain ⟨i, hslot, -, rfl⟩ := SlotStore.mem_minted.mp hm
      have hi := (Array.getElem?_eq_some_iff.mp hslot).1
      obtain ⟨region, hregion, hstart, hsize⟩ := hhoused.region
      obtain ⟨new, hnew, he⟩ := List.mem_map.mp (hshape.symm ▸ List.mem_map_of_mem hregion)
      simp only [Region.shape, Prod.mk.injEq] at he
      refine ⟨new, hnew, ?_, ?_⟩ <;>
        simp only [Region.stop, SlotStore.addressOf, SlotStore.size, SlotStore.length,
          SlotStore.slotSize] at * <;> omega
    case holds => exact hholds
  · cases hr.1
    have hnil := SlotStore.minted_eq_nil hany
    exact ⟨hl, fun _ _ ↦ rfl, by simp [hnil], by simp [hnil], by simp [hnil]⟩

end Loading

end Hunks
