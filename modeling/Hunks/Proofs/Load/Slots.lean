import Mathlib
import Hunks.Proofs.Load.InStep
import Hunks.Proofs.Memory.Holds
import Hunks.Proofs.Slots

namespace Hunks

open Hunks.Action (run Preserves)

namespace SlotStore

variable {store : SlotStore} {memory memory' : Memory}

/-- All slots of a store were taken before. -/
def Nameless (store : SlotStore) : Prop :=
  ∀ slot ∈ store.slots, slot.name = none

theorem Nameless.not_any (h : store.Nameless) : ¬ store.slots.any fun slot ↦ slot.name.isSome := by
  rw [Array.any_eq_true']
  rintro ⟨slot, hm, hname⟩
  rw [h slot hm] at hname
  cases hname

/-- Slots that were taken before fill the region with the name of the store, and have no names. -/
def Reserved (store : SlotStore) (memory : Memory) : Prop :=
  ∀ region, memory.named? store.name = some region → region.start = store.base ∧
    ∃ n : Nat, region.size = n * slotSize ∧
      ∀ (i : Nat) slot, store.slots[i]? = some slot → slot.name.isSome → n ≤ i

theorem Reserved.congr (h : store.Reserved memory)
    (hm : (memory'.named? store.name).map Region.shape = (memory.named? store.name).map Region.shape) :
    store.Reserved memory' := by
  intro region hn
  rw [hn, Option.map_some] at hm
  obtain ⟨old, ho, he⟩ := Option.map_eq_some_iff.mp hm.symm
  simp only [Region.shape, Prod.mk.injEq] at he
  obtain ⟨hstart, n, hsize, hslots⟩ := h old ho
  exact ⟨he.2.1 ▸ hstart, n, he.2.2 ▸ hsize, hslots⟩

theorem Reserved.of_shape (h : store.Reserved memory)
    (hm : memory'.map Region.shape = memory.map Region.shape) : store.Reserved memory' :=
  h.congr (by rw [Memory.named?_shape, Memory.named?_shape, hm])

/-- A store that goes on behind the region with its name. -/
def behind (store : SlotStore) (memory : Memory) : SlotStore :=
  match memory.named? store.name with
  | some region => { store with base := region.start }.reserve (Int.fdiv region.size slotSize)
  | none => store

@[simp] theorem name_behind (store : SlotStore) (memory : Memory) :
    (store.behind memory).name = store.name := by
  rw [behind]
  split <;> rfl

theorem initialized_behind (store : SlotStore) (memory : Memory) :
    (store.behind memory).initialized = store.initialized := by
  rw [behind]
  split <;> rfl

theorem nameless_behind (he : store.slots = #[]) (memory : Memory) : (store.behind memory).Nameless := by
  intro slot hm
  rw [behind] at hm
  split at hm
  · simp only [reserve, he, Array.empty_append, Array.mem_replicate] at hm
    rw [hm.2]
  · simp [he] at hm

theorem reserved_behind (he : store.slots = #[]) (hlongs : memory.Longs) (slots : List Slot) :
    ((store.behind memory).extend slots).Reserved memory := by
  intro region hn
  have hname : ((store.behind memory).extend slots).name = store.name := name_behind ..
  rw [hname] at hn
  obtain ⟨n, hn'⟩ := hlongs region (List.mem_of_find?_eq_some hn)
  have hcount : (Int.fdiv region.size slotSize).toNat = n := by
    rw [hn', Int.mul_fdiv_cancel _ (by decide), Int.toNat_natCast]
  rw [behind, hn]
  refine ⟨rfl, n, hn', fun i slot hslot hsome ↦ ?_⟩
  by_contra hlt
  simp only [extend, reserve, he, hcount, Array.empty_append] at hslot
  rw [Array.getElem?_append_left (by simpa using hlt), Array.getElem?_replicate,
    if_pos (by omega)] at hslot
  cases hslot
  cases hsome

/-- No region of a memory lies between an address and the end of a store. -/
def Free (store : SlotStore) (start : Int) (memory : Memory) : Prop :=
  ∀ old ∈ memory, old.stop ≤ start ∨ store.stop ≤ old.start

theorem Free.slot {start : Int} (h : store.Free start memory) {i : Nat} {slot : Slot}
    (hslot : store.slots[i]? = some slot) (hi : start ≤ store.addressOf i) :
    memory.Clear (store.addressOf i) slotSize := by
  intro old hm
  have hlt : i < store.slots.size := (Array.getElem?_eq_some_iff.mp hslot).1
  have ha := h old hm
  simp only [addressOf, stop, size, length, slotSize] at *
  omega

end SlotStore

namespace Loading

variable {ρ α : Type} {loading loading' : Loading ρ} {program : Program} {store : SlotStore}

/-- A load has the memory and the labels of a program, and perhaps more. -/
def Extends (program : Program) : Loading ρ → Prop :=
  Has (Host.Extends program)

theorem run_getBlock (h : loading.host.Reliable) (address : Int) (name : String) :
    run (attempt .getBlock address (Host.getBlock name)) loading =
      (.ok (some (loading.host.program.memory.named? name)), loading) := by
  rw [run_attempt, Host.getBlock, Host.run_ask h]
  rfl

theorem run_reserveSlots (h : loading.host.Reliable) (store : SlotStore) :
    run (reserveSlots store) loading = (.ok (store.behind loading.host.program.memory), loading) := by
  rw [reserveSlots, Action.run_bind_ok (run_getBlock h ..), SlotStore.behind]
  cases loading.host.program.memory.named? store.name <;> rfl

/-- A creation may fail, but never loses an old region. -/
theorem createBlock_extends (h : loading.Extends program) {plan : Region.Plan}
    (hplan : plan.data = none ∨ plan.size = none) {found : Option Region}
    (hr : run (createBlock plan) loading = (.ok found, loading')) :
    loading'.Extends program ∧ ∀ region, found = some region →
      Memory.Created plan loading.host.program.memory region loading'.host.program.memory := by
  rw [run_createBlock h.reliable] at hr
  cases hc : Memory.create plan loading.host.program.memory with
  | error e =>
    rw [hc] at hr
    cases hr
    exact ⟨h, by simp⟩
  | ok created =>
    have hcreated := Memory.create_eq_ok hc
    rw [hc] at hr
    cases hr
    refine ⟨h.withMemory (hcreated.sound hplan h.sound) (hcreated.keeps h.memory), ?_⟩
    rintro region ⟨rfl⟩
    exact hcreated

theorem createSlots_extends (h : loading.Extends program) {found : Option Region}
    (hr : run (createSlots store) loading = (.ok found, loading')) :
    loading'.Extends program ∧ (found.isSome → store.Free store.base program.memory) := by
  have hfree : ∀ plan : Region.Plan, plan.address = store.base →
      Memory.plannedSize plan = .ok (store.size : Int) → ∀ region, Memory.Created plan
        loading.host.program.memory region loading'.host.program.memory →
        store.Free store.base program.memory := by
    intro plan hbase hplanned region hcreated old hm
    have ha := hcreated.apart_old h.memory hm
    have hstart := hcreated.start
    have hsize : region.size = store.size := Except.ok.inj (hcreated.size.symm.trans hplanned)
    simp only [Region.Apart, Region.stop, SlotStore.stop] at ha ⊢
    omega
  rw [createSlots] at hr
  split at hr
  · obtain ⟨hextends, hcreated⟩ := createBlock_extends h (Or.inr rfl) hr
    refine ⟨hextends, fun hsome ↦ ?_⟩
    obtain ⟨region, hfound⟩ := Option.isSome_iff_exists.mp hsome
    refine hfree _ rfl ?_ region (hcreated region hfound)
    rw [← store.size_content]
    rfl
  · obtain ⟨hextends, hcreated⟩ := createBlock_extends h (Or.inl rfl) hr
    refine ⟨hextends, fun hsome ↦ ?_⟩
    obtain ⟨region, hfound⟩ := Option.isSome_iff_exists.mp hsome
    exact hfree _ rfl rfl region (hcreated region hfound)

/-- A join may fail, but never loses an old region. -/
theorem join_extends (h : loading.Extends program) {region tail : Region} (address : Int)
    (hregion : region ∈ loading.host.program.memory) (htail : tail ∈ loading.host.program.memory)
    (hnew : ∀ old ∈ program.memory, old.start ≠ tail.start) {found : Option Region}
    (hr : run (attempt .join address (Host.join (some region) (some tail))) loading =
      (.ok found, loading')) : loading'.Extends program := by
  rw [run_attempt, Host.join, Host.run_changeMemory h.reliable] at hr
  dsimp only at hr
  cases hj : loading.host.program.memory.join region tail with
  | error e =>
    rw [hj] at hr
    cases hr
    exact h
  | ok joined =>
    rw [hj] at hr
    cases hr
    exact h.withMemory (h.sound.join hregion htail hj) (h.memory.join h.sound hregion htail hj hnew)

theorem convert_extends (h : loading.Extends program) {tail : Region} (address : Int)
    (htail : tail ∈ loading.host.program.memory) (hd : tail.data = none)
    (hnew : ∀ old ∈ program.memory, old.start ≠ tail.start) {found : Option Region}
    (hr : run (attempt .convert address (Host.convert (some tail) 0)) loading =
      (.ok found, loading')) :
    loading'.Extends program ∧ ∃ tail', found = some tail' ∧ tail'.start = tail.start ∧
      tail' ∈ loading'.host.program.memory ∧ ∀ other ∈ loading.host.program.memory,
        other.start ≠ tail.start → other ∈ loading'.host.program.memory := by
  rw [run_attempt, Host.convert, Host.run_changeMemory h.reliable] at hr
  dsimp only at hr
  rw [Memory.convert_blank _ hd] at hr
  cases hr
  have hpos := h.sound.positive tail htail
  have hblank : ((Bytes.zeros tail.size.toNat).size : Int) = tail.size := by
    rw [Bytes.size_zeros]
    omega
  refine ⟨h.withMemory (h.sound.setData htail hblank) (h.memory.update ?_), _, rfl, rfl,
    Memory.mem_update_self htail rfl, fun other hm hne ↦ Memory.mem_update_of_ne hm hne⟩
  intro old hm new hn hext hstart
  exact absurd (hext.start.symm.trans hstart) (hnew old hm)

/-- The memory for new slots lies behind the region of the old ones, apart from everything else. -/
theorem extendSlots_extends (hs : program.memory.Sound) (h : loading.Extends program)
    {region : Region} (hregion : region ∈ loading.host.program.memory) {found : Option Region}
    (hr : run (extendSlots store region) loading = (.ok found, loading')) :
    loading'.Extends program ∧
      (found.isSome → region.start = store.base → store.Free region.stop program.memory) := by
  rw [extendSlots] at hr
  obtain ⟨created, middle, hcreate, hr⟩ := Action.run_bind_eq_ok.mp hr
  obtain ⟨hextends, hcreated⟩ := createBlock_extends h (Or.inl rfl) hcreate
  cases created with
  | none =>
    cases hr
    exact ⟨hextends, by simp⟩
  | some tail =>
    have htail := hcreated tail rfl
    have hstart : tail.start = region.stop := htail.start
    have hsize : store.size - region.size = tail.size := Except.ok.inj htail.size
    have hpos := htail.positive
    have hregion' : region ∈ middle.host.program.memory := by
      rw [htail.memory]
      exact Memory.mem_insert.mpr (Or.inr hregion)
    have hbehind : region.start ≠ tail.start := by
      have hp := h.sound.positive region hregion
      rw [hstart, Region.stop]
      omega
    have hnew : ∀ old ∈ program.memory, old.start ≠ tail.start := by
      intro old hm
      have ha := htail.apart_old h.memory hm
      have hp := hs.positive old hm
      simp only [Region.Apart, Region.stop] at ha
      omega
    have hfree : region.start = store.base → store.Free region.stop program.memory := by
      intro hbase old hm
      have ha := htail.apart_old h.memory hm
      simp only [Region.Apart, Region.stop, SlotStore.stop] at ha hstart ⊢
      omega
    refine ⟨?_, fun _ ↦ hfree⟩
    dsimp only at hr
    split at hr
    · obtain ⟨converted, last, hconvert, hjoin⟩ := Action.run_bind_eq_ok.mp hr
      obtain ⟨hextends', tail', rfl, hstart', htail', hothers⟩ :=
        convert_extends hextends _ htail.mem htail.data hnew hconvert
      rw [← hstart'] at hnew
      exact join_extends hextends' _ (hothers region hregion' hbehind) htail' hnew hjoin
    · rw [Action.run_bind_ok (Action.run_pure ..)] at hr
      exact join_extends hextends _ hregion' htail.mem hnew hr

/-- The slots with names lie where the program has nothing. -/
theorem slotRegion_extends (hs : program.memory.Sound) (h : loading.Extends program)
    {found : Option Region} (hr : run (slotRegion store) loading = (.ok found, loading')) :
    loading'.Extends program ∧ (found.isSome → store.Reserved loading.host.program.memory →
      ∀ (i : Nat) slot, store.slots[i]? = some slot → slot.name.isSome →
        program.memory.Clear (store.addressOf i) SlotStore.slotSize) := by
  rw [slotRegion, Action.run_bind_ok (run_getBlock h.reliable ..)] at hr
  cases hn : loading.host.program.memory.named? store.name with
  | none =>
    rw [hn] at hr
    obtain ⟨hextends, hfree⟩ := createSlots_extends h hr
    refine ⟨hextends, fun hsome _ i slot hslot _ ↦ (hfree hsome).slot hslot ?_⟩
    simp only [SlotStore.addressOf, SlotStore.slotSize]
    omega
  | some region =>
    rw [hn, Option.join_some] at hr
    dsimp only at hr
    split at hr <;> rename_i hlt
    · obtain ⟨hextends, hfree⟩ := extendSlots_extends hs h (List.mem_of_find?_eq_some hn) hr
      refine ⟨hextends, fun hsome hreserved i slot hslot hname ↦ ?_⟩
      obtain ⟨hbase, n, hsize, hslots⟩ := hreserved region hn
      have hi := hslots i slot hslot hname
      refine (hfree hsome hbase).slot hslot ?_
      simp only [Region.stop, SlotStore.addressOf, SlotStore.slotSize] at *
      omega
    · cases hr
      refine ⟨h, fun _ hreserved i slot hslot hname ↦ ?_⟩
      obtain ⟨-, n, hsize, hslots⟩ := hreserved region hn
      have hi := hslots i slot hslot hname
      have hlength : i < store.slots.size := (Array.getElem?_eq_some_iff.mp hslot).1
      simp only [SlotStore.size, SlotStore.length, SlotStore.slotSize] at *
      omega

theorem fillSlot_preserves (hs : program.memory.Sound) (loader : Loader ρ) {slot : Slot} {i : Nat}
    (hclear : slot.name.isSome → store.initialized →
      program.memory.Clear (store.addressOf i) SlotStore.slotSize) :
    (fillSlot loader store slot i).Preserves (Extends program) := by
  have hfill : (fillSlot loader store slot i).InStep (Both (Host.Same (Host.Extends program)))
      fun _ ↦ True := by
    refine fillSlot_inStep (Host.extends_stable program).lasting.noting.seen loader fun hname hinit ↦
      Host.same_relates (Host.setBytes_preserves hs ?_)
    have hsize : (Bytes.long (slot.value.getD 0)).toArray.size = SlotStore.slotSize := by
      rw [List.size_toArray, Bytes.long, Bytes.length_ofInt]
      rfl
    rw [hsize]
    exact hclear hname hinit
  exact (confined_of_inStep hfill).preserves

/-- No region that was there is written to, whatever it is called. -/
theorem materialize_extends (hs : program.memory.Sound) (h : loading.Extends program)
    (loader : Loader ρ) (hstore : store.initialized → store.Reserved loading.host.program.memory)
    (hr : run (materialize loader store) loading = (.ok (), loading')) :
    loading'.Extends program := by
  rw [materialize] at hr
  split at hr
  · obtain ⟨found, middle, hregion, hr⟩ := Action.run_bind_eq_ok.mp hr
    obtain ⟨hextends, hclear⟩ := slotRegion_extends hs h hregion
    cases found with
    | none =>
      cases hr
      exact hextends
    | some region =>
      refine Preserves.of_run (.bind (.report _ _) fun _ ↦ .forEach fun entry hm ↦ ?_) hr hextends
      have hslot : store.slots[entry.2]? = some entry.1 := by
        rw [← Array.getElem?_toList]
        exact List.mem_zipIdx_iff_getElem?.mp hm
      exact fillSlot_preserves hs loader fun hname hinit ↦
        hclear rfl (hstore hinit) entry.2 entry.1 hslot hname
  · cases hr
    exact h

end Loading

end Hunks
