import Mathlib
import Hunks.Proofs.Link.Ledger
import Hunks.Proofs.Link.Placeholders

namespace Hunks

open Hunks.Action (run)

namespace Event

variable {known : String → Bool} {events : List Event} {event other : Event} {name : String}

/-- The first event of a name that is not known before counts. -/
theorem mem_firsts_of_find? (hk : known name = false)
    (h : events.find? (fun event ↦ event.name = name) = some event) : event ∈ firsts known events := by
  -- more names get known along the list, but not this one before its first event
  induction events generalizing known with
  | nil => cases h
  | cons first events ih =>
    rw [firsts]
    by_cases hn : first.name = name
    · rw [List.find?_cons_of_pos (by simpa using hn)] at h
      obtain rfl := Option.some.inj h
      rw [if_neg (by simp [hn, hk])]
      exact List.mem_cons_self
    · rw [List.find?_cons_of_neg (by simpa using hn)] at h
      split
      · exact ih hk h
      · exact List.mem_cons_of_mem _ (ih (by simp [hk, Ne.symm hn]) h)

theorem eq_of_mem_firsts (h : event ∈ firsts known events) (h' : other ∈ firsts known events)
    (hn : other.name = event.name) : other = event :=
  List.inj_on_of_nodup_map (nodup_firsts known events) h' h hn

end Event

namespace NameTable

variable {table : NameTable} {events : List Event} {event : Event} {name : String} {address : Int}

/-- A table whose host does not fail and in which no slot has a name yet. -/
structure Fresh (table : NameTable) : Prop where
  reliable : table.host.Reliable
  defs : ∀ slot ∈ table.defs.slots, slot.name = none
  refs : ∀ slot ∈ table.refs.slots, slot.name = none

theorem Fresh.steady (h : table.Fresh) : table.Steady where
  reliable := h.reliable
  defs slot hm name hn := by
    rw [h.defs slot hm] at hn
    cases hn
  refs slot hm name hn := by
    rw [h.refs slot hm] at hn
    cases hn

theorem Fresh.settled (h : table.Fresh) : table.Settled where
  defs := .of_nameless h.defs _
  refs := .of_nameless h.refs _
  values slot hm hn := by
    rw [h.defs slot hm] at hn
    cases hn

theorem Settled.address?_of_defs (h : table.Settled) (hl : table.defs.lookup? name = some address) :
    table.address? name = some address := by
  obtain ⟨i, slot, hs, hn, rfl⟩ := SlotStore.lookup?_eq_some hl
  exact h.defs _ slot (SlotStore.mem_minted.mpr ⟨i, hs, by simp [hn], rfl⟩) name hn

theorem Settled.address?_of_refs (h : table.Settled) (hl : table.refs.lookup? name = some address) :
    table.address? name = some address := by
  obtain ⟨i, slot, hs, hn, rfl⟩ := SlotStore.lookup?_eq_some hl
  exact h.refs _ slot (SlotStore.mem_minted.mpr ⟨i, hs, by simp [hn], rfl⟩) name hn

/-- The slots of values have the names of the absolute definitions that came first. -/
theorem Fresh.mem_defs (h : table.Fresh) : name ∈ (events.foldl bind table).defs.names ↔
    ∃ value, .absolute name value ∈ Event.firsts table.known events := by
  rw [foldl_bind, enter, SlotStore.names_extend, SlotStore.names_eq_nil h.defs, List.nil_append,
    List.filterMap_filterMap, List.mem_filterMap]
  constructor
  · rintro ⟨_ | _ | _, he, hn⟩
    · cases hn
      exact ⟨_, he⟩
    · cases hn
    · cases hn
  · rintro ⟨value, he⟩
    exact ⟨_, he, rfl⟩

/-- The open slots have the names of the references that came first. -/
theorem Fresh.mem_refs (h : table.Fresh) : name ∈ (events.foldl bind table).refs.names ↔
    .reference name ∈ Event.firsts table.known events := by
  rw [foldl_bind, enter, SlotStore.names_extend, SlotStore.names_eq_nil h.refs, List.nil_append,
    List.filterMap_filterMap, List.mem_filterMap]
  constructor
  · rintro ⟨_ | _ | _, he, hn⟩
    · cases hn
    · cases hn
    · cases hn
      exact he
  · intro he
    exact ⟨_, he, rfl⟩

/-- A name that is defined before anything else is said about it lies where it is defined, and has no
slot. -/
theorem Fresh.of_definition (h : table.Fresh) (hn : table.address? name = none)
    (hf : events.find? (fun event ↦ event.name = name) = some (.definition name address)) :
    (events.foldl bind table).address? name = some address ∧
      (events.foldl bind table).defs.lookup? name = none ∧
      (events.foldl bind table).refs.lookup? name = none := by
  have hfirst : .definition name address ∈ Event.firsts table.known events :=
    Event.mem_firsts_of_find? (by simp [known, hn]) hf
  refine ⟨address?_label table (Event.label_of_definition _ _ hfirst), ?_, ?_⟩
  · rw [SlotStore.lookup?_none_iff, h.mem_defs]
    rintro ⟨value, hm⟩
    cases Event.eq_of_mem_firsts hfirst hm rfl
  · rw [SlotStore.lookup?_none_iff, h.mem_refs]
    intro hm
    cases Event.eq_of_mem_firsts hfirst hm rfl

/-- A name that comes up in another way first lies at its slot. -/
theorem Fresh.of_slot (h : table.Fresh) (hn : table.address? name = none)
    (hf : events.find? (fun event ↦ event.name = name) = some event)
    (hd : ∀ address, event ≠ .definition name address)
    (ha : (events.foldl bind table).address? name = some address) :
    (events.foldl bind table).defs.lookup? name = some address ∨
      (events.foldl bind table).refs.lookup? name = some address := by
  have hfirst : event ∈ Event.firsts table.known events :=
    Event.mem_firsts_of_find? (by simp [known, hn]) hf
  have hname : event.name = name := by simpa using List.find?_some hf
  have hsettled := h.settled.foldl events
  cases event with
  | absolute other value =>
    obtain rfl : other = name := hname
    have hm := h.mem_defs.mpr ⟨value, hfirst⟩
    obtain ⟨slot, hl⟩ := Option.isSome_iff_exists.mp (SlotStore.lookup?_isSome.mpr hm)
    rw [hsettled.address?_of_defs hl] at ha
    exact Or.inl (hl.trans ha)
  | definition other place =>
    obtain rfl : other = name := hname
    exact absurd rfl (hd place)
  | reference other =>
    obtain rfl : other = name := hname
    have hm := h.mem_refs.mpr hfirst
    obtain ⟨slot, hl⟩ := Option.isSome_iff_exists.mp (SlotStore.lookup?_isSome.mpr hm)
    rw [hsettled.address?_of_refs hl] at ha
    exact Or.inr (hl.trans ha)

end NameTable

/-- An image that defines a name, not as an absolute value, at this address. -/
def Image.Defines (image : Image) (addresses : List Int) (name : String) (address : Int) : Prop :=
  ∃ (id : Nat) (segment : Segment), image.segments[id]? = some segment ∧
    ∃ definition ∈ segment.definitions, definition.name = name ∧ definition.absolute = false ∧
      address = addresses.getD id 0 + definition.offset

/-- An image that does not refer to a name, or define it as an absolute value, before it defines it
otherwise. -/
def Image.DefinesFirst (image : Image) (addresses : List Int) (name : String) : Prop :=
  ∀ event ∈ (image.events addresses).find? fun event ↦ event.name = name,
    ∃ address, event = .definition name address

theorem Image.defines_iff {image : Image} {addresses : List Int} {name : String} {address : Int} :
    image.Defines addresses name address ↔ .definition name address ∈ image.events addresses := by
  simp only [Image.events, List.mem_flatMap, Prod.exists, List.mk_mem_zipIdx_iff_getElem?,
    Segment.events, List.mem_append, List.mem_map, Image.Defines]
  constructor
  · rintro ⟨id, segment, hs, definition, hm, rfl, habs, rfl⟩
    refine ⟨segment, id, hs, Or.inl ⟨definition, hm, ?_⟩⟩
    simp [Definition.event, habs]
  · rintro ⟨segment, id, hs, ⟨definition, hm, he⟩ | ⟨reference, -, he⟩⟩
    · rw [Definition.event] at he
      split at he <;> rename_i habs
      · cases he
      · cases he
        exact ⟨id, segment, hs, definition, hm, rfl, by simpa using habs, rfl⟩
    · cases he

/-- A definition of the startup code that is not an absolute value. -/
def Event.isStartup : Event → Bool
  | .definition name _ => name = Linker.startupName
  | _ => false

namespace Linker

variable {α : Type} {linker linker' : Linker} {table : NameTable} {events more done : List Event}
  {event : Event}

/-- The address of the startup code once a definition of its name has come up, be it the one that counts
or not. -/
def startups (table : NameTable) (done : List Event) : List Int :=
  if done.any Event.isStartup then (table.address? startupName).toList else []

theorem startups_of_definition {address : Int} (h : .definition startupName address ∈ done) :
    startups table done = (table.address? startupName).toList :=
  if_pos (List.any_eq_true.mpr ⟨_, h, by simp [Event.isStartup]⟩)

theorem mem_startups {entry : Int} (h : entry ∈ startups table done) :
    (∃ address, .definition startupName address ∈ done) ∧ table.address? startupName = some entry := by
  rw [startups] at h
  split at h <;> rename_i hany
  · obtain ⟨startup, hm, hs⟩ := List.any_eq_true.mp hany
    refine ⟨?_, by simpa using h⟩
    cases startup with
    | definition name address =>
      obtain rfl : name = startupName := by simpa [Event.isStartup] using hs
      exact ⟨address, hm⟩
    | absolute => cases hs
    | reference => cases hs
  · cases h

/-- A linker that has entered events into a table. -/
structure Entered (table : NameTable) (done : List Event) (linker : Linker) : Prop where
  names : linker.names = done.foldl NameTable.bind table
  entryPoints : linker.entryPoints.toList = startups linker.names done

theorem Entered.steady (h : Entered table done linker) (ht : table.Steady) : linker.names.Steady := by
  rw [h.names]
  exact ht.foldl done

/-- Names that a linker knows keep their addresses, and so the address of the startup code stays. -/
theorem Entered.startups_bind (h : Entered table done linker) (event : Event) :
    startups (linker.bind event).names done = linker.entryPoints.toList := by
  rw [h.entryPoints]
  by_cases hd : ∃ place, .definition startupName place ∈ done
  · obtain ⟨place, hm⟩ := hd
    obtain ⟨address, ha⟩ := NameTable.known_foldl table hm
    rw [← h.names] at ha
    rw [startups_of_definition hm, startups_of_definition hm,
      show linker.names.address? startupName = some address from ha]
    exact congrArg Option.toList (NameTable.address?_foldl linker.names [event] ha)
  · have hnone : ∀ table, startups table done = [] := fun _ ↦
      List.eq_nil_iff_forall_not_mem.mpr fun _ hm ↦ hd (mem_startups hm).1
    rw [hnone, hnone]

theorem Entered.bind (h : Entered table done linker) (hs : event.isStartup = false) :
    Entered table (done ++ [event]) (linker.bind event) where
  names := by
    rw [names_bind, h.names, List.foldl_append]
    rfl
  entryPoints := by
    refine (h.startups_bind event).symm.trans ?_
    simp [startups, hs]

/-- A linker in which an address has been noted. -/
def note (linker : Linker) (address : Int) : Linker :=
  { linker with entryPoints :=
      if linker.entryPoints.contains address then linker.entryPoints
      else linker.entryPoints.push address }

/-- The first definition of the startup code notes the address that the name has then. Later ones find
it noted. -/
theorem Entered.note (h : Entered table done linker) (hs : event.isStartup) {known : Int}
    (ha : (linker.bind event).names.address? startupName = some known) :
    Entered table (done ++ [event]) ((linker.bind event).note known) where
  names := by
    rw [List.foldl_append, ← h.names]
    rfl
  entryPoints := by
    have hold := h.startups_bind event
    have hnew : startups (linker.bind event).names (done ++ [event]) = [known] := by
      simp [startups, hs, ha]
    refine Eq.trans ?_ hnew.symm
    have hkept : (linker.bind event).entryPoints = linker.entryPoints := rfl
    rw [startups, ha] at hold
    split at hold
    · have hentries : linker.entryPoints = #[known] := Array.toList_inj.mp hold.symm
      simp [Linker.note, hkept, hentries]
    · have hentries : linker.entryPoints = #[] := Array.toList_inj.mp hold.symm
      simp [Linker.note, hkept, hentries]

/-- The one address that was noted, told from the event that the name of the startup code came up in
first. -/
theorem Entered.entry (h : Entered table done linker) (hfresh : table.Fresh)
    (hn : table.address? startupName = none) {entry : Int} (hm : entry ∈ linker.entryPoints) :
    linker.entryPoints = #[entry] ∧ (∃ address, .definition startupName address ∈ done) ∧
      ∃ event, done.find? (fun event ↦ event.name = startupName) = some event ∧
        (∀ address, event = .definition startupName address → entry = address ∧
          linker.defs.lookup? startupName = none ∧ linker.refs.lookup? startupName = none) ∧
        ((∀ address, event ≠ .definition startupName address) →
          linker.defs.lookup? startupName = some entry ∨ linker.refs.lookup? startupName = some entry) := by
  have hstartups : entry ∈ startups linker.names done := h.entryPoints ▸ Array.mem_toList_iff.mpr hm
  obtain ⟨⟨address, hd⟩, ha⟩ := mem_startups hstartups
  have hone : linker.entryPoints.toList = [entry] := by
    rw [h.entryPoints, startups_of_definition hd, ha]
    rfl
  obtain ⟨event, hf⟩ : ∃ event, done.find? (fun event ↦ event.name = startupName) = some event :=
    Option.isSome_iff_exists.mp (List.find?_isSome.mpr ⟨_, hd, by simp [Event.name]⟩)
  refine ⟨Array.toList_inj.mp hone, ⟨address, hd⟩, event, hf, ?_, fun hother ↦ ?_⟩
  · rintro place rfl
    have hplaced := hfresh.of_definition hn hf
    rw [← h.names, ha] at hplaced
    exact ⟨Option.some.inj hplaced.1, hplaced.2⟩
  · have hslot := hfresh.of_slot hn hf hother (h.names ▸ ha)
    rwa [← h.names] at hslot

theorem Entered.noted (h : Entered table done linker) {address : Int}
    (hd : .definition startupName address ∈ done) :
    ∃ entry ∈ linker.entryPoints, linker.names.address? startupName = some entry := by
  obtain ⟨entry, ha⟩ := NameTable.known_foldl table hd
  rw [← h.names] at ha
  refine ⟨entry, Array.mem_toList_iff.mp ?_, ha⟩
  rw [h.entryPoints, startups_of_definition hd]
  exact Option.mem_toList.mpr ha

/-- What a part of a link does to a linker that has entered some events: it enters its own, the first of
them if it fails. -/
def Enters (table : NameTable) (events : List Event) (x : Link α) : Prop :=
  ∀ front linker, Entered table front linker → ∃ done rest, events = done ++ rest ∧
    Entered table (front ++ done) (run x linker).2 ∧ ∀ a, (run x linker).1 = .ok a → rest = []

theorem Enters.bind {β : Type} {x : Link α} {f : α → Link β} (hx : Enters table events x)
    (hf : ∀ a, Enters table more (f a)) : Enters table (events ++ more) (x >>= f) := by
  intro front linker h
  obtain ⟨done, rest, rfl, hdone, hrest⟩ := hx front linker h
  rw [Action.run_bind]
  rcases hrun : run x linker with ⟨e | a, middle⟩
  · rw [hrun] at hdone
    exact ⟨done, rest ++ more, List.append_assoc .., hdone, fun _ he ↦ nomatch he⟩
  · rw [hrun] at hdone hrest
    obtain rfl := hrest a rfl
    obtain ⟨done', rest', rfl, hdone', hrest'⟩ := hf a (front ++ done) middle hdone
    refine ⟨done ++ done', rest', by simp, ?_, hrest'⟩
    rwa [← List.append_assoc]

theorem Enters.forEach {f : α → Link Unit} {events : α → List Event}
    (hf : ∀ a, Enters table (events a) (f a)) (as : List α) :
    Enters table (as.flatMap events) (Action.forEach as f) := by
  induction as with
  | nil => exact fun front linker h ↦ ⟨[], [], rfl, by rwa [List.append_nil], fun _ _ ↦ rfl⟩
  | cons a as ih =>
    intro front linker h
    rw [Action.forEach, Action.run_foldl_cons]
    exact (hf a).bind (fun _ ↦ ih) front linker h

/-- A part of a link that returns and enters one event. -/
theorem Enters.of_ok {x : Link α} (h : ∀ front linker, Entered table front linker →
    ∃ a linker', run x linker = (.ok a, linker') ∧ Entered table (front ++ [event]) linker') :
    Enters table [event] x := by
  intro front linker hfront
  obtain ⟨a, linker', hrun, hdone⟩ := h front linker hfront
  rw [hrun]
  exact ⟨[event], [], rfl, hdone, fun _ _ ↦ rfl⟩

section Steady

variable (ht : table.Steady)
include ht

theorem addDefinition_enters (address : Int) (definition : Definition) :
    Enters table [definition.event address] (addDefinition address definition) := by
  refine .of_ok fun front linker h ↦ ?_
  rw [addDefinition, Definition.event]
  split
  case isTrue =>
    obtain ⟨slot, hrun, -⟩ := run_defineAbsolute (h.steady ht) definition.name definition.offset
    rw [Action.run_bind_ok hrun]
    exact ⟨(), _, rfl, h.bind rfl⟩
  case isFalse =>
    obtain ⟨known, hrun, ha⟩ :=
      run_define (h.steady ht) definition.name (address + definition.offset)
    rw [Action.run_bind_ok hrun, Action.run_bind_ok (Action.run_get _)]
    by_cases hname : definition.name = startupName
    · rw [hname] at ha ⊢
      refine ⟨(), (linker.bind _).note known, ?_, h.note (by simp [Event.isStartup]) ha⟩
      rw [Linker.note]
      split
      case isTrue hc =>
        rw [if_neg (by simpa using hc.2)]
        rfl
      case isFalse hc =>
        rw [if_pos (by simpa using hc)]
        rfl
    · rw [if_neg (by simp [hname])]
      exact ⟨(), _, rfl, h.bind (by simp [Event.isStartup, hname])⟩

omit ht in
theorem patch_enters (imageEnd address target offset : Int) (id : Nat) (reference : Reference) :
    Enters table [] (patch imageEnd address id reference target offset) := by
  intro front linker h
  rw [← List.append_nil front] at h
  refine ⟨[], [], rfl, ?_, fun _ _ ↦ rfl⟩
  rw [patch, Action.run_bind_ok (Action.run_get _)]
  dsimp only
  split
  · exact h
  · rw [Action.run_bind_ok (Action.run_debug ..), Action.run_bind_ok (Action.run_get _)]
    split
    · exact h
    · exact ⟨h.names, h.entryPoints⟩

theorem addReference_enters (imageEnd address : Int) (id : Nat) (reference : Reference) :
    Enters table [.reference reference.name] (addReference imageEnd address id reference) := by
  have hresolve : Enters table [.reference reference.name] (resolve reference.name) :=
    .of_ok fun front linker h ↦ by
      obtain ⟨target, hrun, -⟩ := run_resolve (h.steady ht) reference.name
      exact ⟨target, _, hrun, h.bind rfl⟩
  refine hresolve.bind fun target ↦ ?_
  have hpatches : Enters table (reference.offsets.flatMap fun _ ↦ []) _ :=
    .forEach (fun offset ↦ patch_enters imageEnd address target offset id reference) reference.offsets
  rwa [List.flatMap_eq_nil_iff.mpr fun _ _ ↦ rfl] at hpatches

/-- A link enters the events of its image, or the first of them. -/
theorem link_enters (image : Image) (addresses : List Int) (imageEnd : Int) :
    Enters table (image.events addresses) (link image addresses imageEnd) := by
  refine .forEach (fun ⟨segment, id⟩ ↦ ?_) image.segments.zipIdx
  have hdefinitions := Enters.forEach (addDefinition_enters ht (addresses.getD id 0)) segment.definitions
  have hreferences := Enters.forEach (addReference_enters ht imageEnd (addresses.getD id 0) id)
    segment.references
  rw [← List.map_eq_flatMap] at hdefinitions hreferences
  exact hdefinitions.bind fun _ ↦ hreferences

end Steady

/-- A link notes one address for the startup code. This is where an image defines it unless the name has
come up before, as an absolute value or in a reference: then it is the slot of the name. -/
theorem link_entryPoints (image : Image) (addresses : List Int) (imageEnd : Int)
    (hfresh : linker.names.Fresh) (hentries : linker.entryPoints = #[])
    (hn : linker.host.program.address? startupName = none) :
    ∃ linked, (link image addresses imageEnd linker).state = linked ∧
      (∀ entry ∈ linked.entryPoints, linked.entryPoints = #[entry] ∧
        (∃ address, image.Defines addresses startupName address) ∧
        (image.DefinesFirst addresses startupName → image.Defines addresses startupName entry ∧
          linked.defs.lookup? startupName = none ∧ linked.refs.lookup? startupName = none) ∧
        (¬ image.DefinesFirst addresses startupName →
          linked.defs.lookup? startupName = some entry ∨ linked.refs.lookup? startupName = some entry)) ∧
      ((link image addresses imageEnd linker).result = .ok () →
        ∀ address, image.Defines addresses startupName address →
          ∃ entry ∈ linked.entryPoints, linked.host.program.address? startupName = some entry) := by
  have hstart : Entered linker.names [] linker := ⟨rfl, by rw [hentries]; rfl⟩
  obtain ⟨done, rest, hevents, hdone, hrest⟩ :=
    link_enters hfresh.steady image addresses imageEnd [] linker hstart
  rw [List.nil_append] at hdone
  refine ⟨_, rfl, fun entry hm ↦ ?_, fun hok address hd ↦ ?_⟩
  · obtain ⟨hone, ⟨address, hd⟩, event, hf, hplaced, hslot⟩ := hdone.entry hfresh hn hm
    have hfirst : (image.events addresses).find? (fun event ↦ event.name = startupName) = some event := by
      rw [hevents, List.find?_append, hf, Option.some_or]
    refine ⟨hone, ⟨address, ?_⟩, fun hdefines ↦ ?_, fun hother ↦ hslot fun place he ↦ hother ?_⟩
    · rw [Image.defines_iff, hevents]
      exact List.mem_append_left _ hd
    · obtain ⟨place, rfl⟩ := hdefines event hfirst
      obtain ⟨rfl, hslots⟩ := hplaced place rfl
      exact ⟨Image.defines_iff.mpr (List.mem_of_find?_eq_some hfirst), hslots⟩
    · intro first hm
      obtain rfl := Option.some.inj (hfirst.symm.trans hm)
      exact ⟨place, he⟩
  · obtain rfl := hrest () hok
    rw [Image.defines_iff, hevents, List.append_nil] at hd
    exact hdone.noted hd

/-- A segment that defines the startup code behind a reference to it. -/
def startup : Segment :=
  { callee with definitions := [⟨startupName, 0, .definition⟩] }

def startupCaller : Segment :=
  { callee with definitions := [], references := [⟨startupName, .absolute, .long, [0], .ref32, none⟩] }

def startupValue : Segment :=
  { callee with definitions := [⟨startupName, 7, .absolute⟩] }

/-- A reference or an absolute value that comes first makes a slot the entry point. -/
theorem entryPoint_at_slot :
    let called : Image := ⟨.unit, [startupCaller, startup]⟩
    let valued : Image := ⟨.unit, [startupValue, startup]⟩
    let before := start (.ofProgram .empty) [Bytes.zeros 4, Bytes.zeros 4] 0x1000 0x1008
    let afterCall := (link called [0x1000, 0x1004] 0x1008 before).state
    let afterValue := (link valued [0x1000, 0x1004] 0x1008 before).state
    (∀ address, called.Defines [0x1000, 0x1004] startupName address ↔ address = 0x1004) ∧
      (∀ address, valued.Defines [0x1000, 0x1004] startupName address ↔ address = 0x1004) ∧
      afterCall.entryPoints = #[0x1008] ∧ afterCall.refs.lookup? startupName = some 0x1008 ∧
      afterValue.entryPoints = #[0x11000] ∧ afterValue.defs.lookup? startupName = some 0x11000 := by
  intro called valued before afterCall afterValue
  have hcalled : called.events [0x1000, 0x1004] =
      [.reference startupName, .definition startupName 0x1004] := by decide +kernel
  have hvalued : valued.events [0x1000, 0x1004] =
      [.absolute startupName 7, .definition startupName 0x1004] := by decide +kernel
  refine ⟨fun address ↦ ?_, fun address ↦ ?_, ?_⟩
  · simp [Image.defines_iff, hcalled]
  · simp [Image.defines_iff, hvalued]
  · decide +kernel

theorem link_entryPoints_startup :
    let image : Image := ⟨.unit, [startup, startupCaller]⟩
    let before := start (.ofProgram sampleProgram) [Bytes.zeros 4, Bytes.zeros 4] 0x1000 0x1008
    before.names.Fresh ∧ before.entryPoints = #[] ∧
      before.host.program.address? startupName = none ∧
      image.DefinesFirst [0x1000, 0x1004] startupName ∧
      ∃ linked, (link image [0x1000, 0x1004] 0x1008 before).state = linked ∧
        linked.entryPoints = #[0x1000] ∧ linked.refs.lookup? startupName = none := by
  intro image before
  have hfresh : before.names.Fresh := by
    refine ⟨rfl, ?_, ?_⟩
    · simp [before, start, names, SlotStore.empty]
    · simp [before, start, names, SlotStore.empty]
  have hn : before.host.program.address? startupName = none := by decide +kernel
  have hdefines : image.DefinesFirst [0x1000, 0x1004] startupName := by
    intro event hm
    exact ⟨0x1000, (Option.some.inj hm).symm⟩
  obtain ⟨linked, hstate, hentries, -⟩ :=
    link_entryPoints image [0x1000, 0x1004] 0x1008 hfresh rfl hn
  have hnoted : linked.entryPoints = #[0x1000] := by
    rw [← hstate]
    decide +kernel
  have hcode := (hentries 0x1000 (by simp [hnoted])).2.2.1 hdefines
  exact ⟨hfresh, rfl, hn, hdefines, linked, hstate, hnoted, hcode.2.2⟩

end Linker

end Hunks
