import Mathlib
import Hunks.Proofs.Link.Errors
import Hunks.Proofs.Slots

namespace Hunks

open Hunks.Action (run)

namespace Event

variable {event : Event}

theorem eq_absolute (h : event.valueSlot?.isSome) : ∃ value, event = absolute event.name value := by
  cases event with
  | absolute name value => exact ⟨value, rfl⟩
  | definition => cases h
  | reference => cases h

theorem eq_reference (h : event.openSlot?.isSome) : event = reference event.name := by
  cases event with
  | absolute => cases h
  | definition => cases h
  | reference => rfl

end Event

/-- What a linker knows of names, and how many labels its host will still set. A name that has a slot
may be without a label here, unlike in a table of names on a host that never fails. -/
structure Ledger where
  program : Program
  defs : SlotStore
  refs : SlotStore
  budget : Option Nat

namespace Ledger

variable {ledger : Ledger} {event : Event} {name : String} {address : Int}

def known (ledger : Ledger) (name : String) : Bool :=
  (ledger.program.address? name).isSome

/-- Where references to a name lead. -/
def aim? (ledger : Ledger) (name : String) : Option Int :=
  (ledger.program.address? name).or (ledger.refs.lookup? name)

def setLabel (label : Label) (ledger : Ledger) : Ledger :=
  if ledger.budget = some 0 then ledger else
    { ledger with
      program := (ledger.program.addLabel label).2
      budget := ledger.budget.map (· - 1) }

/-- The label that an event sets. -/
def label (ledger : Ledger) : Event → Label
  | .absolute name _ => ⟨ledger.defs.stop, name, Label.userDefined⟩
  | .definition name address => ⟨address, name, Label.userDefined⟩
  | .reference name => ⟨ledger.refs.stop, name, Label.imported⟩

/-- Enters an event whose name has neither a label nor a slot in the store of the event. -/
def take (ledger : Ledger) (event : Event) : Ledger :=
  { ledger with
    defs := ledger.defs.extend event.valueSlot?.toList
    refs := ledger.refs.extend event.openSlot?.toList }.setLabel (ledger.label event)

theorem known_eq_false : ledger.known name = false ↔ ledger.program.address? name = none := by
  rw [known, Option.isSome_eq_false_iff, Option.isNone_iff_eq_none]

/-- Nothing is to be done for an event. -/
def Has (ledger : Ledger) (event : Event) : Prop :=
  ledger.known event.name ∨ (event.valueSlot?.isSome ∧ event.name ∈ ledger.defs.names) ∨
    (event.openSlot?.isSome ∧ event.name ∈ ledger.refs.names)

instance (ledger : Ledger) (event : Event) : Decidable (ledger.Has event) :=
  inferInstanceAs (Decidable (_ ∨ _))

def enter (ledger : Ledger) (event : Event) : Ledger :=
  if ledger.Has event then ledger else ledger.take event

theorem enter_known (event : Event) (h : ledger.program.address? event.name = some address) :
    ledger.enter event = ledger := by
  have hk : ledger.known event.name := by
    rw [known, h]
    rfl
  have hh : ledger.Has event := Or.inl hk
  rw [enter, if_pos hh]

/-- A name without a label has nothing but a slot in the store of the event. -/
theorem enter_new (h : ledger.program.address? event.name = none)
    (hd : event.valueSlot?.isSome → event.name ∉ ledger.defs.names)
    (hr : event.openSlot?.isSome → event.name ∉ ledger.refs.names) :
    ledger.enter event = ledger.take event := by
  have hk : ¬ ledger.known event.name := Bool.eq_false_iff.mp (known_eq_false.mpr h)
  have hh : ¬ ledger.Has event := by
    rw [Has]
    tauto
  rw [enter, if_neg hh]

@[simp] theorem label_name (ledger : Ledger) (event : Event) :
    (ledger.label event).name = event.name := by
  cases event <;> rfl

theorem address?_setLabel {label : Label} (h : ledger.program.address? label.name = none) :
    (ledger.setLabel label).program.address? name =
      if ledger.budget ≠ some 0 ∧ name = label.name then some label.address else
        ledger.program.address? name := by
  rw [setLabel]
  split <;> rename_i hb
  · simp [hb]
  · dsimp only
    rw [Program.addLabel_eq label h, Program.address?_append, List.find?_singleton]
    by_cases hn : name = label.name
    · subst hn
      simp [hb, h]
    · simp [hn, Ne.symm hn]

@[simp] theorem setLabel_defs (label : Label) (ledger : Ledger) :
    (ledger.setLabel label).defs = ledger.defs := by
  rw [setLabel]
  split <;> rfl

@[simp] theorem setLabel_refs (label : Label) (ledger : Ledger) :
    (ledger.setLabel label).refs = ledger.refs := by
  rw [setLabel]
  split <;> rfl

@[simp] theorem take_defs (ledger : Ledger) (event : Event) :
    (ledger.take event).defs = ledger.defs.extend event.valueSlot?.toList := by
  rw [take, setLabel_defs]

@[simp] theorem take_refs (ledger : Ledger) (event : Event) :
    (ledger.take event).refs = ledger.refs.extend event.openSlot?.toList := by
  rw [take, setLabel_refs]

theorem address?_take (event : Event) (h : ledger.known event.name = false) :
    (ledger.take event).program.address? name =
      if ledger.budget ≠ some 0 ∧ name = event.name then some (ledger.label event).address else
        ledger.program.address? name := by
  have hn : ledger.program.address? (ledger.label event).name = none := by
    rwa [label_name, ← known_eq_false]
  rw [← label_name ledger event]
  exact address?_setLabel hn

/-- A host that has failed to set a label sets none any more. -/
theorem budget_take (h : ledger.budget = some 0) : (ledger.take event).budget = some 0 := by
  rw [take, setLabel, if_pos h]
  exact h

theorem budget_enter (h : ledger.budget = none) (event : Event) :
    (ledger.enter event).budget = none := by
  rw [enter]
  split
  · exact h
  · rw [take, setLabel, if_neg (by simp [h])]
    dsimp only
    rw [h]
    rfl

theorem not_has_known (h : ¬ ledger.Has event) : ledger.known event.name = false :=
  Bool.eq_false_iff.mpr fun hk ↦ h (.inl hk)

theorem address?_enter (h : ledger.program.address? name = some address) (event : Event) :
    (ledger.enter event).program.address? name = some address := by
  rw [enter]
  split <;> rename_i hh
  · exact h
  · have hk := not_has_known hh
    rw [address?_take event hk, if_neg, h]
    rintro ⟨-, rfl⟩
    rw [known, h] at hk
    cases hk

theorem lookup?_refs_enter (h : ledger.refs.lookup? name = some address) (event : Event) :
    (ledger.enter event).refs.lookup? name = some address := by
  rw [enter]
  split
  · exact h
  · rw [take_refs]
    exact SlotStore.lookup?_extend _ h

/-- A new slot is the aim of its name, be it labelled or not. -/
theorem aim?_take (h : ledger.program.address? name = none) (hr : name ∉ ledger.refs.names) :
    (ledger.take (.reference name)).aim? name = some ledger.refs.stop := by
  have hk : ledger.known name = false := known_eq_false.mpr h
  rw [aim?, address?_take (.reference name) hk, take_refs]
  split
  · exact Option.some_or
  · rw [h, Option.none_or]
    exact SlotStore.lookup?_extend_new none hr

/-- How names, labels and slots belong together. A name can do without a label only where no label can
be set any more, and has two slots only where it is without a label. -/
structure Sound (ledger : Ledger) : Prop where
  defs : ledger.defs.names.Nodup
  refs : ledger.refs.names.Nodup
  labelled : ∀ name, name ∈ ledger.defs.names ∨ name ∈ ledger.refs.names →
    ledger.known name ∨ ledger.budget = some 0
  single : ∀ name, name ∈ ledger.defs.names → name ∈ ledger.refs.names → ledger.known name = false

theorem names_defs_take (ledger : Ledger) (event : Event) : (ledger.take event).defs.names =
    ledger.defs.names ++ if event.valueSlot?.isSome then [event.name] else [] := by
  rw [take_defs, SlotStore.names_extend]
  cases event <;> rfl

theorem names_refs_take (ledger : Ledger) (event : Event) : (ledger.take event).refs.names =
    ledger.refs.names ++ if event.openSlot?.isSome then [event.name] else [] := by
  rw [take_refs, SlotStore.names_extend]
  cases event <;> rfl

theorem mem_defs_take : name ∈ (ledger.take event).defs.names ↔
    name ∈ ledger.defs.names ∨ (event.valueSlot?.isSome ∧ name = event.name) := by
  rw [names_defs_take, List.mem_append, List.mem_ite_nil_right, List.mem_singleton]

theorem mem_refs_take : name ∈ (ledger.take event).refs.names ↔
    name ∈ ledger.refs.names ∨ (event.openSlot?.isSome ∧ name = event.name) := by
  rw [names_refs_take, List.mem_append, List.mem_ite_nil_right, List.mem_singleton]

theorem of_mem_defs_enter (h : name ∈ (ledger.enter event).defs.names) :
    name ∈ ledger.defs.names ∨ (event.valueSlot?.isSome ∧ name = event.name) := by
  rw [enter] at h
  split at h
  · exact Or.inl h
  · exact mem_defs_take.mp h

theorem of_mem_refs_enter (h : name ∈ (ledger.enter event).refs.names) :
    name ∈ ledger.refs.names ∨ (event.openSlot?.isSome ∧ name = event.name) := by
  rw [enter] at h
  split at h
  · exact Or.inl h
  · exact mem_refs_take.mp h

theorem nodup_append_new {names : List String} {isNew : Bool} (h : names.Nodup)
    (hn : isNew → name ∉ names) : (names ++ if isNew then [name] else []).Nodup := by
  cases isNew with
  | false => rwa [if_neg Bool.false_ne_true, List.append_nil]
  | true =>
    refine List.nodup_append.mpr ⟨h, List.nodup_singleton name, ?_⟩
    rintro other hm _ hsingle rfl
    exact hn rfl (List.mem_singleton.mp hsingle ▸ hm)

theorem known_take (h : ledger.known event.name = false) :
    (ledger.take event).known name =
      (ledger.known name || decide (ledger.budget ≠ some 0 ∧ name = event.name)) := by
  rw [known, address?_take event h]
  split <;> simp [known, *]

theorem Sound.take (h : ledger.Sound) (hh : ¬ ledger.Has event) : (ledger.take event).Sound := by
  have hk := not_has_known hh
  simp only [Has, not_or, not_and] at hh
  obtain ⟨-, hvalue, hopen⟩ := hh
  refine ⟨?_, ?_, fun name hm ↦ ?_, fun name hd hr ↦ ?_⟩
  · rw [names_defs_take]
    exact nodup_append_new h.defs hvalue
  · rw [names_refs_take]
    exact nodup_append_new h.refs hopen
  · by_cases hb : ledger.budget = some 0
    · exact Or.inr (budget_take hb)
    · left
      rw [known_take hk, Bool.or_eq_true, decide_eq_true_iff]
      by_cases hn : name = event.name
      · exact Or.inr ⟨hb, hn⟩
      · rw [mem_defs_take, mem_refs_take] at hm
        exact Or.inl ((h.labelled name (by tauto)).resolve_right hb)
  · rw [mem_defs_take] at hd
    rw [mem_refs_take] at hr
    rw [known_take hk, Bool.or_eq_false_iff, decide_eq_false_iff_not]
    by_cases hn : name = event.name
    · -- One of the two slots was there before, so that no label can be set for it now.
      have hold : name ∈ ledger.defs.names ∨ name ∈ ledger.refs.names := by
        cases event <;> simp_all [Event.valueSlot?, Event.openSlot?]
      have hb := (h.labelled name hold).resolve_left (by rw [hn, hk]; exact Bool.false_ne_true)
      exact ⟨hn ▸ hk, fun hnew ↦ hnew.1 hb⟩
    · exact ⟨h.single name (by tauto) (by tauto), fun hnew ↦ hn hnew.2⟩

theorem Sound.enter (h : ledger.Sound) (event : Event) : (ledger.enter event).Sound := by
  rw [Ledger.enter]
  split <;> rename_i hh
  · exact h
  · exact h.take hh

/-- A name that has a slot only keeps it as its aim, as it will not get a label. -/
theorem Sound.aim?_enter (h : ledger.Sound) (ha : ledger.aim? name = some address) (event : Event) :
    (ledger.enter event).aim? name = some address := by
  rw [aim?, Option.or_eq_some_iff] at ha
  rcases ha with ha | ⟨hn, ha⟩
  · rw [aim?, address?_enter ha, Option.some_or]
  · have hm : name ∈ ledger.refs.names := SlotStore.mem_of_lookup? ha
    have hb : ledger.budget = some 0 :=
      (h.labelled name (Or.inr hm)).resolve_left (Bool.eq_false_iff.mp (known_eq_false.mpr hn))
    have hnone : (ledger.enter event).program.address? name = none := by
      rw [Ledger.enter]
      split <;> rename_i hh
      · exact hn
      · rw [address?_take event (not_has_known hh), if_neg fun hnew ↦ hnew.1 hb, hn]
    rw [aim?, hnone, Option.none_or]
    exact lookup?_refs_enter ha event

/-- A property of sound ledgers that no event takes away. -/
structure Kept (I : Ledger → Prop) : Prop where
  sound : ∀ ledger, I ledger → ledger.Sound
  enter : ∀ ledger event, I ledger → I (ledger.enter event)

theorem Kept.foldl {I : Ledger → Prop} (hI : Kept I) (h : I ledger) (events : List Event) :
    I (events.foldl Ledger.enter ledger) := by
  induction events generalizing ledger with
  | nil => exact h
  | cons event events ih => exact ih (hI.enter ledger event h)

theorem kept_sound : Kept Sound where
  sound _ h := h
  enter _ event h := h.enter event

theorem kept_aim (name : String) (address : Int) :
    Kept fun ledger ↦ ledger.Sound ∧ ledger.aim? name = some address where
  sound _ h := h.1
  enter _ event h := ⟨h.1.enter event, h.1.aim?_enter h.2 event⟩

theorem kept_unlimited : Kept fun ledger ↦ ledger.Sound ∧ ledger.budget = none where
  sound _ h := h.1
  enter _ event h := ⟨h.1.enter event, budget_enter h.2 event⟩

/-- A choice of addresses for names that has all aims of a ledger. -/
def Aims (ledger : Ledger) (target : String → Int) : Prop :=
  ∀ name address, ledger.aim? name = some address → target name = address

/-- The aims of a ledger, and zero for a name without one. -/
def target (ledger : Ledger) (name : String) : Int :=
  (ledger.aim? name).getD 0

theorem aims_target (ledger : Ledger) : ledger.Aims ledger.target := by
  intro name address ha
  rw [target, ha, Option.getD_some]

theorem Sound.aims_of_foldl (h : ledger.Sound) {target : String → Int} {events : List Event}
    (ht : (events.foldl Ledger.enter ledger).Aims target) : ledger.Aims target :=
  fun name address ha ↦ ht name address ((kept_aim name address).foldl ⟨h, ha⟩ events).2

/-- An event of a store has a label or a slot there, once it has been entered. -/
theorem has_enter (ledger : Ledger) (hs : event.valueSlot?.isSome ∨ event.openSlot?.isSome) :
    (ledger.enter event).Has event := by
  rw [enter]
  split
  · assumption
  · right
    rw [mem_defs_take, mem_refs_take]
    tauto

theorem Has.enter {other : Event} (h : ledger.Has other) (event : Event) :
    (ledger.enter event).Has other := by
  rw [Ledger.enter]
  split <;> rename_i hh
  · exact h
  · rcases h with hk | h
    · exact Or.inl (by rw [known_take (not_has_known hh), hk, Bool.true_or])
    · right
      rw [mem_defs_take, mem_refs_take]
      tauto

/-- All slots of a ledger are those of events, and an event that is to have a slot has it or a label. -/
structure Covers (ledger : Ledger) (events : List Event) : Prop where
  defs : ∀ name ∈ ledger.defs.names, ∃ event ∈ events, event.valueSlot?.isSome ∧ event.name = name
  refs : ∀ name ∈ ledger.refs.names, ∃ event ∈ events, event.openSlot?.isSome ∧ event.name = name
  has : ∀ event ∈ events, event.valueSlot?.isSome ∨ event.openSlot?.isSome → ledger.Has event

theorem Covers.enter {events : List Event} (h : ledger.Covers events) (event : Event) :
    (ledger.enter event).Covers (events ++ [event]) where
  defs name hm := by
    rcases of_mem_defs_enter hm with hm | ⟨hs, rfl⟩
    · obtain ⟨old, ho, hs⟩ := h.defs name hm
      exact ⟨old, List.mem_append_left _ ho, hs⟩
    · exact ⟨event, by simp, hs, rfl⟩
  refs name hm := by
    rcases of_mem_refs_enter hm with hm | ⟨hs, rfl⟩
    · obtain ⟨old, ho, hs⟩ := h.refs name hm
      exact ⟨old, List.mem_append_left _ ho, hs⟩
    · exact ⟨event, by simp, hs, rfl⟩
  has other hm hs := by
    rcases List.mem_append.mp hm with hm | hm
    · exact (h.has other hm hs).enter event
    · obtain rfl := List.mem_singleton.mp hm
      exact has_enter ledger hs

theorem Covers.foldl {done : List Event} (h : ledger.Covers done) (events : List Event) :
    (events.foldl Ledger.enter ledger).Covers (done ++ events) := by
  induction events generalizing ledger done with
  | nil => rwa [List.append_nil]
  | cons event events ih =>
    have hrest := ih (h.enter event)
    rwa [List.append_assoc] at hrest

end Ledger

end Hunks
