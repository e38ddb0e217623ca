import Mathlib
import Hunks.Link
import Hunks.Proofs.Host

namespace Hunks

/-- What a segment says about a name. -/
inductive Event where
  | absolute (name : String) (value : Int)
  | definition (name : String) (address : Int)
  | reference (name : String)
  deriving DecidableEq, Repr

namespace Event

def name : Event → String
  | absolute name _ => name
  | definition name _ => name
  | reference name => name

/-- The first event of each name that is not known before. -/
def firsts (known : String → Bool) : List Event → List Event
  | [] => []
  | event :: events =>
    if known event.name then
      firsts known events
    else
      event :: firsts (fun name ↦ known name || name = event.name) events

/-- The slot that an event takes among the absolute values. -/
def valueSlot? : Event → Option Slot
  | absolute name value => some ⟨some name, some value⟩
  | _ => none

/-- The slot that an event takes among the names without a definition. -/
def openSlot? : Event → Option Slot
  | reference name => some ⟨some name, none⟩
  | _ => none

/-- The labels that the first events set, the next slots lying at the two addresses. -/
def labels (nextValue nextOpen : Int) : List Event → List Label
  | [] => []
  | absolute name _ :: events =>
    ⟨nextValue, name, Label.userDefined⟩ ::
      labels (nextValue + SlotStore.slotSize) nextOpen events
  | definition name address :: events =>
    ⟨address, name, Label.userDefined⟩ :: labels nextValue nextOpen events
  | reference name :: events =>
    ⟨nextOpen, name, Label.imported⟩ :: labels nextValue (nextOpen + SlotStore.slotSize) events

variable {known : String → Bool} {events : List Event}

theorem firsts_unknown {event : Event} (h : event ∈ firsts known events) :
    known event.name = false := by
  induction events generalizing known with
  | nil => simp [firsts] at h
  | cons first events ih =>
    rw [firsts] at h
    split at h <;> rename_i hk
    · exact ih h
    · rcases List.mem_cons.mp h with rfl | h
      · simpa using hk
      · exact (Bool.or_eq_false_iff.mp (ih h)).1

theorem nodup_firsts (known : String → Bool) (events : List Event) :
    ((firsts known events).map name).Nodup := by
  induction events generalizing known with
  | nil => exact List.nodup_nil
  | cons first events ih =>
    rw [firsts]
    split
    · exact ih known
    · rw [List.map_cons, List.nodup_cons]
      refine ⟨fun hm ↦ ?_, ih _⟩
      obtain ⟨event, he, hn⟩ := List.mem_map.mp hm
      have hu := firsts_unknown he
      simp [hn] at hu

theorem map_name_labels (nextValue nextOpen : Int) (events : List Event) :
    (labels nextValue nextOpen events).map Label.name = events.map name := by
  induction events generalizing nextValue nextOpen with
  | nil => rfl
  | cons event events ih => cases event <;> simp [labels, name, ih]

theorem eq_of_valueSlot? {event : Event} {slot : Slot} (h : event.valueSlot? = some slot) :
    ∃ name value, slot = ⟨some name, some value⟩ := by
  cases event with
  | absolute name value => exact ⟨name, value, (Option.some.inj h).symm⟩
  | definition name address => cases h
  | reference name => cases h

theorem eq_of_openSlot? {event : Event} {slot : Slot} (h : event.openSlot? = some slot) :
    ∃ name, slot = ⟨some name, none⟩ := by
  cases event with
  | absolute name value => cases h
  | definition name address => cases h
  | reference name => exact ⟨name, (Option.some.inj h).symm⟩

theorem label_of_definition (nextValue nextOpen : Int) {name : String} {address : Int}
    (h : definition name address ∈ events) :
    ⟨address, name, Label.userDefined⟩ ∈ labels nextValue nextOpen events := by
  induction events generalizing nextValue nextOpen with
  | nil => simp at h
  | cons event events ih =>
    rcases List.mem_cons.mp h with rfl | hm
    · exact List.mem_cons_self
    · cases event <;> exact List.mem_cons_of_mem _ (ih _ _ hm)

end Event

theorem Label.find?_eq_some {labels : List Label} {label : Label} (h : label ∈ labels)
    (hn : (labels.map Label.name).Nodup) :
    labels.find? (fun other ↦ other.name = label.name) = some label := by
  induction labels with
  | nil => simp at h
  | cons first labels ih =>
    rw [List.map_cons, List.nodup_cons] at hn
    rcases List.mem_cons.mp h with rfl | hm
    · simp
    · have hne : first.name ≠ label.name := fun he ↦ hn.1 (he ▸ List.mem_map_of_mem hm)
      rw [List.find?_cons_of_neg (by simpa using hne), ih hm hn.2]

namespace Program

theorem address?_append (program : Program) (labels : List Label) (name : String) :
    address? { program with labels := program.labels ++ labels.toArray } name =
      (program.address? name).or
        ((labels.find? fun label ↦ label.name = name).map Label.address) := by
  simp only [address?, Array.find?_append, List.find?_toArray]
  cases program.labels.find? fun label ↦ label.name = name <;> rfl

theorem addLabel_eq {program : Program} (label : Label) (h : program.address? label.name = none) :
    program.addLabel label =
      (label.address, { program with labels := program.labels ++ [label].toArray }) := by
  rw [addLabel, h]
  simp

end Program

namespace SlotStore

/-- The diagnostics for slots without a definition, the first of which has this number. -/
def unresolved (store : SlotStore) (first : Nat) (slots : List Slot) : List Diagnostic :=
  (slots.zipIdx first).map fun (slot, i) ↦
    ⟨.unresolvedExternal, slot.name.getD "", store.addressOf i⟩

theorem addressOf_length (store : SlotStore) : store.addressOf store.length = store.stop := by
  rw [addressOf, stop, size, Int.natCast_mul]

theorem addressOf_inj {store : SlotStore} {i j : Nat} :
    store.addressOf i = store.addressOf j ↔ i = j := by
  simp only [addressOf, slotSize]
  omega

/-- A store in which more slots are taken. -/
def extend (store : SlotStore) (slots : List Slot) : SlotStore :=
  { store with slots := store.slots ++ slots.toArray }

@[simp] theorem extend_nil (store : SlotStore) : store.extend [] = store := by
  simp [extend]

theorem extend_append (store : SlotStore) (slots more : List Slot) :
    (store.extend slots).extend more = store.extend (slots ++ more) := by
  simp [extend]

theorem stop_extend (store : SlotStore) (slots : List Slot) :
    (store.extend slots).stop = store.stop + slots.length * slotSize := by
  simp only [extend, stop, size, length, Array.size_append, List.size_toArray]
  push_cast
  ring

theorem length_extend (store : SlotStore) (slots : List Slot) :
    (store.extend slots).length = store.length + slots.length := by
  simp [extend, length]

@[simp] theorem stop_empty (name : String) (base : Int) (initialized : Bool) :
    (empty name base initialized).stop = base :=
  Int.add_zero base

theorem mem_extend {store : SlotStore} {slots : List Slot} {slot : Slot} :
    slot ∈ (store.extend slots).slots ↔ slot ∈ store.slots ∨ slot ∈ slots := by
  simp [extend]

theorem lookup?_eq_none {store : SlotStore} {name : String}
    (h : ∀ slot ∈ store.slots, slot.name ≠ some name) : store.lookup? name = none := by
  have hfind : store.slots.findIdx? (fun slot ↦ slot.name = some name) = none :=
    Array.findIdx?_eq_none_iff.mpr (by simpa using h)
  rw [lookup?, hfind]
  rfl

theorem add_eq {store : SlotStore} {name : String} {value : Option Int}
    (h : store.lookup? name = none) :
    store.add name value = (store.stop, store.extend [⟨some name, value⟩]) := by
  rw [add, h]
  simp [addressOf_length, extend]

theorem unresolved_extend (store : SlotStore) (slot : Slot) (slots : List Slot) :
    store.unresolved store.length (slot :: slots) =
      ⟨.unresolvedExternal, slot.name.getD "", store.stop⟩ ::
        (store.extend [slot]).unresolved (store.extend [slot]).length slots := by
  rw [unresolved, List.zipIdx_cons, List.map_cons]
  dsimp only
  rw [addressOf_length, length_extend]
  rfl

end SlotStore

/-- The part of a linker that knows about names. -/
structure NameTable where
  host : Host
  defs : SlotStore
  refs : SlotStore
  diagnostics : Array Diagnostic

namespace NameTable

def address? (table : NameTable) (name : String) : Option Int :=
  table.host.program.address? name

def known (table : NameTable) (name : String) : Bool :=
  (table.address? name).isSome

def withLabels (table : NameTable) (labels : List Label) : Host :=
  { table.host with program :=
    { table.host.program with labels := table.host.program.labels ++ labels.toArray } }

/-- Enters an event whose name is not known. -/
def take (table : NameTable) : Event → NameTable
  | .absolute name value => { table with
      host := table.withLabels [⟨table.defs.stop, name, Label.userDefined⟩]
      defs := table.defs.extend [⟨some name, some value⟩] }
  | .definition name address => { table with
      host := table.withLabels [⟨address, name, Label.userDefined⟩] }
  | .reference name => { table with
      host := table.withLabels [⟨table.refs.stop, name, Label.imported⟩]
      refs := table.refs.extend [⟨some name, none⟩]
      diagnostics := table.diagnostics.push ⟨.unresolvedExternal, name, table.refs.stop⟩ }

def bind (table : NameTable) (event : Event) : NameTable :=
  if table.known event.name then table else table.take event

/-- A table in which the first events of their names have been entered. -/
def enter (table : NameTable) (firsts : List Event) : NameTable where
  host := table.withLabels (Event.labels table.defs.stop table.refs.stop firsts)
  defs := table.defs.extend (firsts.filterMap Event.valueSlot?)
  refs := table.refs.extend (firsts.filterMap Event.openSlot?)
  diagnostics := table.diagnostics ++
    (table.refs.unresolved table.refs.length (firsts.filterMap Event.openSlot?)).toArray

theorem address?_withLabels (table : NameTable) (labels : List Label) (name : String) :
    (table.withLabels labels).program.address? name =
      (table.address? name).or
        ((labels.find? fun label ↦ label.name = name).map Label.address) :=
  Program.address?_append ..

theorem known_take (table : NameTable) (event : Event) :
    (table.take event).known = fun name ↦ table.known name || name = event.name := by
  funext name
  have hone : ∀ label : Label, label.name = event.name →
      (((table.withLabels [label]).program.address? name).isSome : Bool) =
        (table.known name || decide (name = event.name)) := by
    intro label hl
    rw [address?_withLabels, Option.isSome_or, known, List.find?_singleton, hl]
    by_cases hn : name = event.name
    · simp [hn]
    · simp [hn, Ne.symm hn]
  cases event with
  | absolute => exact hone _ rfl
  | definition => exact hone _ rfl
  | reference => exact hone _ rfl

theorem enter_take (table : NameTable) (event : Event) (events : List Event) :
    (table.take event).enter events = table.enter (event :: events) := by
  cases event with
  | absolute name value =>
    simp [take, enter, withLabels, Event.labels, Event.valueSlot?, Event.openSlot?,
      List.filterMap_cons, SlotStore.extend_append, SlotStore.stop_extend]
  | definition name address =>
    simp [take, enter, withLabels, Event.labels, Event.valueSlot?, Event.openSlot?,
      List.filterMap_cons]
  | reference name =>
    simp [take, enter, withLabels, Event.labels, Event.valueSlot?, Event.openSlot?,
      List.filterMap_cons, SlotStore.extend_append, SlotStore.stop_extend,
      SlotStore.unresolved_extend]

theorem foldl_bind (table : NameTable) (events : List Event) :
    events.foldl bind table = table.enter (Event.firsts table.known events) := by
  induction events generalizing table with
  | nil => simp [Event.firsts, enter, withLabels, Event.labels, SlotStore.unresolved]
  | cons event events ih =>
    rw [List.foldl_cons, ih, Event.firsts, bind]
    split
    · rfl
    · rw [known_take, enter_take]

variable {table : NameTable} {name : String} {address : Int}

/-- No address is ever lost or changed. -/
theorem address?_enter (firsts : List Event) (h : table.address? name = some address) :
    (table.enter firsts).address? name = some address := by
  show (table.withLabels _).program.address? name = _
  rw [address?_withLabels, h, Option.some_or]

theorem address?_foldl (table : NameTable) (events : List Event) (h : table.address? name = some address) :
    (events.foldl bind table).address? name = some address := by
  rw [foldl_bind]
  exact address?_enter _ h

/-- A choice of addresses that has those of the known names. -/
def Agrees (table : NameTable) (target : String → Int) : Prop :=
  ∀ name address, table.address? name = some address → target name = address

theorem Agrees.of_foldl {target : String → Int} {events : List Event}
    (h : (events.foldl bind table).Agrees target) : table.Agrees target :=
  fun name address ha ↦ h name address (address?_foldl table events ha)

theorem address?_label (table : NameTable) {events : List Event} {label : Label}
    (h : label ∈ Event.labels table.defs.stop table.refs.stop (Event.firsts table.known events)) :
    (events.foldl bind table).address? label.name = some label.address := by
  have hnames := Event.map_name_labels table.defs.stop table.refs.stop
    (Event.firsts table.known events)
  have hmem : label.name ∈ (Event.firsts table.known events).map Event.name := by
    rw [← hnames]
    exact List.mem_map_of_mem h
  obtain ⟨event, he, hn⟩ := List.mem_map.mp hmem
  have hunknown : table.address? label.name = none := by
    have hu := Event.firsts_unknown he
    rwa [hn, known, Option.isSome_eq_false_iff, Option.isNone_iff_eq_none] at hu
  have hnodup := Event.nodup_firsts table.known events
  rw [← hnames] at hnodup
  rw [foldl_bind]
  show (table.withLabels _).program.address? label.name = _
  rw [address?_withLabels, hunknown, Option.none_or, Label.find?_eq_some h hnodup]
  rfl

theorem known_bind (table : NameTable) (event : Event) : (table.bind event).known event.name := by
  rw [bind]
  split
  · assumption
  · rw [known_take]
    simp

theorem known_foldl (table : NameTable) {event : Event} {events : List Event} (h : event ∈ events) :
    ∃ address, (events.foldl bind table).address? event.name = some address := by
  obtain ⟨pre, post, rfl⟩ := List.append_of_mem h
  have hk := known_bind (pre.foldl bind table) event
  obtain ⟨address, ha⟩ := Option.isSome_iff_exists.mp hk
  refine ⟨address, ?_⟩
  rw [List.foldl_append, List.foldl_cons]
  exact address?_foldl _ post ha

/-- No operation of the host fails, and every slot with a name has a label. -/
structure Steady (table : NameTable) : Prop where
  reliable : table.host.Reliable
  defs : ∀ slot ∈ table.defs.slots, ∀ name ∈ slot.name, table.known name
  refs : ∀ slot ∈ table.refs.slots, ∀ name ∈ slot.name, table.known name

theorem Steady.take (h : table.Steady) (event : Event) : (table.take event).Steady := by
  have hknown : ∀ name, table.known name → (table.take event).known name := by
    intro name hk
    rw [known_take]
    simp [hk]
  have hnew : (table.take event).known event.name := by
    rw [known_take]
    simp
  cases event with
  | absolute name value =>
    refine ⟨h.reliable, fun slot hm name' hn ↦ ?_, fun slot hm name hn ↦ hknown _ (h.refs slot hm name hn)⟩
    rcases SlotStore.mem_extend.mp hm with hm | hm
    · exact hknown _ (h.defs slot hm name' hn)
    · obtain rfl := List.mem_singleton.mp hm
      cases hn
      exact hnew
  | definition name address =>
    exact ⟨h.reliable, fun slot hm name hn ↦ hknown _ (h.defs slot hm name hn),
      fun slot hm name hn ↦ hknown _ (h.refs slot hm name hn)⟩
  | reference name =>
    refine ⟨h.reliable, fun slot hm name hn ↦ hknown _ (h.defs slot hm name hn), fun slot hm name' hn ↦ ?_⟩
    rcases SlotStore.mem_extend.mp hm with hm | hm
    · exact hknown _ (h.refs slot hm name' hn)
    · obtain rfl := List.mem_singleton.mp hm
      cases hn
      exact hnew

theorem Steady.bind (h : table.Steady) (event : Event) : (table.bind event).Steady := by
  rw [NameTable.bind]
  split
  · exact h
  · exact h.take event

theorem Steady.foldl (h : table.Steady) (events : List Event) :
    (events.foldl NameTable.bind table).Steady := by
  induction events generalizing table with
  | nil => exact h
  | cons event events ih => exact ih (h.bind event)

theorem Steady.lookup?_defs (h : table.Steady) (hn : table.address? name = none) :
    table.defs.lookup? name = none :=
  SlotStore.lookup?_eq_none fun slot hm he ↦ by
    have hk := h.defs slot hm name he
    simp [known, hn] at hk

theorem Steady.lookup?_refs (h : table.Steady) (hn : table.address? name = none) :
    table.refs.lookup? name = none :=
  SlotStore.lookup?_eq_none fun slot hm he ↦ by
    have hk := h.refs slot hm name he
    simp [known, hn] at hk

end NameTable

end Hunks
