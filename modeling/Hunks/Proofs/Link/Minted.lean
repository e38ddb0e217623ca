import Mathlib
import Hunks.Proofs.Names

namespace Hunks

namespace SlotStore

variable {store : SlotStore} {program program' : Program} {address : Int} {slot : Slot}

/-- The slots that were taken for names, behind their addresses. -/
def minted (store : SlotStore) : List (Int × Slot) :=
  (store.slots.toList.zipIdx.filter fun (slot, _) ↦ slot.name.isSome).map fun (slot, i) ↦
    (store.addressOf i, slot)

theorem mem_minted : (address, slot) ∈ store.minted ↔
    ∃ i : Nat, store.slots[i]? = some slot ∧ slot.name.isSome ∧ address = store.addressOf i := by
  simp only [minted, List.mem_map, List.mem_filter, Prod.exists, Prod.mk.injEq,
    List.mk_mem_zipIdx_iff_getElem?, Array.getElem?_toList]
  constructor
  · rintro ⟨slot', i, ⟨hs, hn⟩, rfl, rfl⟩
    exact ⟨i, hs, hn, rfl⟩
  · rintro ⟨i, hs, hn, rfl⟩
    exact ⟨slot, i, ⟨hs, hn⟩, rfl, rfl⟩

/-- The addresses differ as the numbers of the slots do. -/
theorem nodup_minted (store : SlotStore) : (store.minted.map Prod.fst).Nodup := by
  have hmap : store.minted.map Prod.fst = ((store.slots.toList.zipIdx.filter
      fun (slot, _) ↦ slot.name.isSome).map Prod.snd).map fun i : Nat ↦ store.addressOf i := by
    rw [minted, List.map_map, List.map_map]
    rfl
  have hindices : ((store.slots.toList.zipIdx.filter
      fun (slot, _) ↦ slot.name.isSome).map Prod.snd).Nodup := by
    refine List.Nodup.sublist (List.filter_sublist.map _) ?_
    rw [List.zipIdx_map_snd]
    exact List.nodup_range'
  rw [hmap]
  exact hindices.map fun i j ↦ addressOf_inj.mp

theorem minted_eq_nil (h : ¬ store.slots.any fun slot ↦ slot.name.isSome) : store.minted = [] := by
  rw [minted, List.map_eq_nil_iff, List.filter_eq_nil_iff]
  rintro ⟨slot, i⟩ hm hn
  refine h (Array.any_eq_true'.mpr ⟨slot, ?_, hn⟩)
  exact Array.mem_toList_iff.mp (List.mem_of_getElem? (List.mk_mem_zipIdx_iff_getElem?.mp hm))

/-- Each slot lies at the address of its name. -/
def Labelled (store : SlotStore) (program : Program) : Prop :=
  ∀ address slot, (address, slot) ∈ store.minted → ∀ name ∈ slot.name,
    program.address? name = some address

theorem Labelled.mono (h : store.Labelled program)
    (hl : ∀ name address, program.address? name = some address →
      program'.address? name = some address) : store.Labelled program' :=
  fun address slot hm name hn ↦ hl _ _ (h address slot hm name hn)

theorem Labelled.extend (h : store.Labelled program)
    (hl : ∀ name ∈ slot.name, program.address? name = some store.stop) :
    (store.extend [slot]).Labelled program := by
  intro address slot' hm name hn
  obtain ⟨i, hs, hsome, rfl⟩ := mem_minted.mp hm
  simp only [SlotStore.extend, Array.getElem?_append] at hs
  split at hs <;> rename_i hi
  · exact h _ slot' (mem_minted.mpr ⟨i, hs, hsome, rfl⟩) name hn
  · have hlast : i = store.slots.size ∧ slot' = slot := by
      simp only [List.getElem?_toArray, List.getElem?_singleton] at hs
      split at hs
      · cases hs
        exact ⟨by omega, rfl⟩
      · cases hs
    obtain ⟨rfl, rfl⟩ := hlast
    rw [hl name hn, ← addressOf_length]
    rfl

/-- A store without names has nothing to label. -/
theorem Labelled.of_nameless (h : ∀ slot ∈ store.slots, slot.name = none) (program : Program) :
    store.Labelled program := by
  intro address slot hm name hn
  obtain ⟨i, hs, -, -⟩ := mem_minted.mp hm
  rw [h slot (Array.mem_of_getElem? hs)] at hn
  cases hn

end SlotStore

namespace NameTable

variable {table : NameTable} {event : Event}

/-- All slots lie at the addresses of their names, and those of absolute values have a value. -/
structure Settled (table : NameTable) : Prop where
  defs : table.defs.Labelled table.host.program
  refs : table.refs.Labelled table.host.program
  values : ∀ slot ∈ table.defs.slots, slot.name.isSome → slot.value.isSome

theorem Settled.take (h : table.Settled) (hn : table.address? event.name = none) :
    (table.take event).Settled := by
  have hold : ∀ labels name address, table.host.program.address? name = some address →
      (table.withLabels labels).program.address? name = some address := by
    intro labels name address ha
    rw [address?_withLabels, address?, ha, Option.some_or]
  have hnew : ∀ label : Label, label.name = event.name →
      (table.withLabels [label]).program.address? event.name = some label.address := by
    intro label hl
    rw [address?_withLabels, hn, Option.none_or, List.find?_singleton, if_pos (by simpa using hl)]
    rfl
  cases event with
  | absolute name value =>
    refine ⟨(h.defs.mono (hold _)).extend ?_, h.refs.mono (hold _), fun slot hm hsome ↦ ?_⟩
    · rintro _ ⟨rfl⟩
      exact hnew ⟨table.defs.stop, name, Label.userDefined⟩ rfl
    · rcases SlotStore.mem_extend.mp hm with hm | hm
      · exact h.values slot hm hsome
      · obtain rfl := List.mem_singleton.mp hm
        rfl
  | definition name address => exact ⟨h.defs.mono (hold _), h.refs.mono (hold _), h.values⟩
  | reference name =>
    refine ⟨h.defs.mono (hold _), (h.refs.mono (hold _)).extend ?_, h.values⟩
    rintro _ ⟨rfl⟩
    exact hnew ⟨table.refs.stop, name, Label.imported⟩ rfl

theorem Settled.bind (h : table.Settled) (event : Event) : (table.bind event).Settled := by
  rw [NameTable.bind]
  split <;> rename_i hk
  · exact h
  · refine h.take ?_
    rwa [known, Option.not_isSome_iff_eq_none] at hk

/-- Whatever the events are, slots get the addresses of their names. -/
theorem Settled.foldl (h : table.Settled) (events : List Event) :
    (events.foldl NameTable.bind table).Settled := by
  induction events generalizing table with
  | nil => exact h
  | cons event events ih => exact ih (h.bind event)

end NameTable

end Hunks
