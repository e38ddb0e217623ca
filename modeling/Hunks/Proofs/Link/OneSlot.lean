import Mathlib
import Hunks.Proofs.Link.Ledger

namespace Hunks

open Hunks.Action (run)

namespace Patch

/-- The content with patches made in it one after the other, if there is room for all. -/
def writeAll? (patches : List Patch) (target : String → Int) (address imageEnd : Int) (data : Bytes) :
    Option Bytes :=
  patches.foldlM (fun data patch ↦ Bytes.write? data patch.offset patch.width
    (Linker.patchValue patch.kind (target patch.name) (address + patch.offset) imageEnd)) data

/-- How buffers change when patches are made in them, each in the one with its number. -/
def Written (patches : List (Nat × Patch)) (target : String → Int) (address : Nat → Int)
    (imageEnd : Int) (before after : Array Bytes) : Prop :=
  ∀ id data, before[id]? = some data → ∃ data', after[id]? = some data' ∧
    writeAll? (patches.filterMap fun (i, patch) ↦ if i = id then some patch else none) target
      (address id) imageEnd data = some data'

variable {target : String → Int} {address : Nat → Int} {imageEnd : Int} {before middle after : Array Bytes}
  {patches more : List (Nat × Patch)}

theorem Written.nil (buffers : Array Bytes) : Written [] target address imageEnd buffers buffers :=
  fun _ data hd ↦ ⟨data, hd, rfl⟩

theorem Written.append (h : Written patches target address imageEnd before middle)
    (h' : Written more target address imageEnd middle after) :
    Written (patches ++ more) target address imageEnd before after := by
  intro id data hd
  obtain ⟨data', hd', hw⟩ := h id data hd
  obtain ⟨data'', hd'', hw'⟩ := h' id data' hd'
  refine ⟨data'', hd'', ?_⟩
  rw [List.filterMap_append, writeAll?, List.foldlM_append]
  exact Option.bind_eq_some_iff.mpr ⟨data', hw, hw'⟩

end Patch

namespace Linker

variable {linker linker' middle : Linker} {α : Type}

def ledger (linker : Linker) : Ledger :=
  ⟨linker.host.program, linker.defs, linker.refs, linker.host.limits.lookup .createLabel⟩

/-- A lookup answers with the label of a name. -/
theorem of_run_lookup {name : String} {found : Option Int}
    (hr : run (lookup name) linker = (.ok found, linker')) :
    found = linker'.ledger.program.address? name ∧ linker'.ledger = linker.ledger ∧
      linker'.buffers = linker.buffers := by
  obtain ⟨limits, henter, hlimits⟩ := Host.run_enter_eq .lookupGlobal linker.host
  have hleft : limits.lookup .createLabel = linker.host.limits.lookup .createLabel := by
    simpa using hlimits .createLabel
  rw [lookup, run_onHost, Host.lookupGlobal, Host.ask] at hr
  by_cases hl : linker.host.limits.lookup .lookupGlobal = some 0
  · rw [if_pos hl] at henter
    rw [Action.run_bind_error henter] at hr
    cases hr
  · rw [if_neg hl] at henter
    rw [Action.run_bind_ok henter] at hr
    cases hr
    refine ⟨rfl, ?_, rfl⟩
    rw [ledger, ledger, ← hleft]
    rfl

/-- What follows a lookup goes on with the label of the name. -/
theorem of_run_lookup_bind {name : String} {next : Option Int → Link α} {a : α}
    (hr : run (lookup name >>= next) linker = (.ok a, linker')) :
    ∃ middle, run (next (middle.ledger.program.address? name)) middle = (.ok a, linker') ∧
      middle.ledger = linker.ledger ∧ middle.buffers = linker.buffers := by
  obtain ⟨found, middle, hlookup, hr⟩ := Action.run_bind_eq_ok.mp hr
  obtain ⟨rfl, hledger, hbuffers⟩ := of_run_lookup hlookup
  exact ⟨middle, hr, hledger, hbuffers⟩

theorem exists_label (address : Int) (name origin : String) (linker : Linker) :
    ∃ linker', run (label address name origin) linker = (.ok (), linker') ∧
      linker'.ledger = linker.ledger.setLabel ⟨address, name, origin⟩ ∧
      linker'.buffers = linker.buffers := by
  obtain ⟨limits, hcreate, hlimits⟩ := Host.run_createLabel_eq address name origin linker.host
  rw [run_label_eq, hcreate]
  refine ⟨_, rfl, ?_, by split <;> rfl⟩
  rw [Ledger.setLabel, ledger, ledger]
  dsimp only
  by_cases hb : linker.host.limits.lookup .createLabel = some 0
  · rw [if_pos hb, if_pos hb, hlimits, hb]
    rfl
  · rw [if_neg hb, if_neg hb, hlimits]

theorem of_run_defineAbsolute {name : String} {value address : Int}
    (hr : run (defineAbsolute name value) linker = (.ok address, linker')) :
    linker'.ledger = linker.ledger.enter (.absolute name value) ∧ linker'.buffers = linker.buffers := by
  obtain ⟨middle, hr, hledger, hbuffers⟩ := of_run_lookup_bind hr
  rw [← hledger, ← hbuffers]
  cases hn : middle.ledger.program.address? name with
  | some known =>
    rw [hn] at hr
    cases hr
    rw [Ledger.enter_known (.absolute name value) hn]
    exact ⟨rfl, rfl⟩
  | none =>
    rw [hn] at hr
    dsimp only at hr
    rw [Action.run_bind_ok (Action.run_get _)] at hr
    cases hd : middle.defs.lookup? name with
    | some slot =>
      rw [hd] at hr
      cases hr
      have hh : middle.ledger.Has (.absolute name value) :=
        Or.inr (Or.inl ⟨rfl, SlotStore.mem_of_lookup? hd⟩)
      rw [Ledger.enter, if_pos hh]
      exact ⟨rfl, rfl⟩
    | none =>
      rw [hd] at hr
      dsimp only at hr
      rw [Action.run_bind_ok (Action.run_get _), SlotStore.add_eq hd] at hr
      dsimp only at hr
      rw [Action.run_bind_ok (Action.run_modify ..), Action.run_bind_ok (Action.run_debug ..)] at hr
      obtain ⟨last, hlabel, hledger, hbuffers⟩ := exists_label middle.defs.stop name Label.userDefined
        { middle with defs := middle.defs.extend [⟨some name, some value⟩] }
      rw [Action.run_bind_ok hlabel, Action.run_pure] at hr
      cases hr
      have hnew : middle.ledger.enter (.absolute name value) =
          middle.ledger.take (.absolute name value) :=
        Ledger.enter_new hn (fun _ ↦ SlotStore.lookup?_none_iff.mp hd) (absurd · Bool.false_ne_true)
      rw [hledger, hbuffers, hnew, Ledger.take]
      simp [Event.valueSlot?, Event.openSlot?, Ledger.label, ledger]

theorem of_run_define {name : String} {address known : Int}
    (hr : run (define name address) linker = (.ok known, linker')) :
    linker'.ledger = linker.ledger.enter (.definition name address) ∧
      linker'.buffers = linker.buffers := by
  obtain ⟨middle, hr, hledger, hbuffers⟩ := of_run_lookup_bind hr
  rw [← hledger, ← hbuffers]
  cases hn : middle.ledger.program.address? name with
  | some known =>
    rw [hn] at hr
    rw [Ledger.enter_known (.definition name address) hn]
    dsimp only at hr
    split at hr
    · cases hr
      exact ⟨rfl, rfl⟩
    · cases hr
      exact ⟨rfl, rfl⟩
  | none =>
    rw [hn] at hr
    obtain ⟨last, hlabel, hledger, hbuffers⟩ := exists_label address name Label.userDefined middle
    dsimp only at hr
    rw [Action.run_bind_ok hlabel, Action.run_pure] at hr
    cases hr
    have hnew : middle.ledger.enter (.definition name address) =
        middle.ledger.take (.definition name address) :=
      Ledger.enter_new hn (absurd · Bool.false_ne_true) (absurd · Bool.false_ne_true)
    rw [hledger, hbuffers, hnew, Ledger.take]
    simp [Event.valueSlot?, Event.openSlot?, Ledger.label, ledger]

theorem of_run_resolve {name : String} {address : Int}
    (hr : run (resolve name) linker = (.ok address, linker')) :
    linker'.ledger = linker.ledger.enter (.reference name) ∧ linker'.buffers = linker.buffers ∧
      linker'.ledger.aim? name = some address := by
  obtain ⟨middle, hr, hledger, hbuffers⟩ := of_run_lookup_bind hr
  rw [← hledger, ← hbuffers]
  cases hn : middle.ledger.program.address? name with
  | some known =>
    rw [hn, Action.run_pure] at hr
    cases hr
    rw [Ledger.enter_known (.reference name) hn, Ledger.aim?, hn, Option.some_or]
    exact ⟨rfl, rfl, rfl⟩
  | none =>
    rw [hn] at hr
    dsimp only at hr
    rw [Action.run_bind_ok (Action.run_get _)] at hr
    cases hd : middle.refs.lookup? name with
    | some slot =>
      have hh : middle.ledger.Has (.reference name) :=
        Or.inr (Or.inr ⟨rfl, SlotStore.mem_of_lookup? hd⟩)
      rw [hd, Action.run_pure] at hr
      cases hr
      rw [Ledger.enter, if_pos hh, Ledger.aim?, hn, Option.none_or]
      exact ⟨rfl, rfl, hd⟩
    | none =>
      rw [hd] at hr
      dsimp only at hr
      rw [Action.run_bind_ok (Action.run_get _), SlotStore.add_eq hd] at hr
      dsimp only at hr
      rw [Action.run_bind_ok (Action.run_modify ..), Action.run_bind_ok (Action.run_info ..)] at hr
      obtain ⟨last, hlabel, hledger, hbuffers⟩ := exists_label middle.refs.stop name Label.imported
        { middle with
          refs := middle.refs.extend [⟨some name, none⟩]
          diagnostics := middle.diagnostics.push ⟨.unresolvedExternal, name, middle.refs.stop⟩ }
      rw [Action.run_bind_ok hlabel, Action.run_pure] at hr
      cases hr
      have hm : name ∉ middle.ledger.refs.names := SlotStore.lookup?_none_iff.mp hd
      have htake : linker'.ledger = middle.ledger.take (.reference name) := by
        rw [hledger, Ledger.take]
        simp [Event.valueSlot?, Event.openSlot?, Ledger.label, ledger]
      have hnew : middle.ledger.enter (.reference name) = middle.ledger.take (.reference name) :=
        Ledger.enter_new hn (absurd · Bool.false_ne_true) fun _ ↦ hm
      exact ⟨htake.trans hnew.symm, hbuffers, htake ▸ Ledger.aim?_take hn hm⟩

/-- What a part of a link does: it enters events, and makes patches that hold the aims of their names. -/
structure Step (address : Nat → Int) (imageEnd : Int) (events : List Event) (patches : List (Nat × Patch))
    (linker linker' : Linker) : Prop where
  ledger : linker'.ledger = events.foldl Ledger.enter linker.ledger
  written : ∀ target, linker'.ledger.Aims target →
    Patch.Written patches target address imageEnd linker.buffers linker'.buffers

variable {address : Nat → Int} {imageEnd : Int} {events more : List Event}
  {patches others : List (Nat × Patch)}

theorem Step.nil (linker : Linker) : Step address imageEnd [] [] linker linker where
  ledger := rfl
  written _ _ := .nil _

theorem Step.sound (h : Step address imageEnd events patches linker linker')
    (hs : linker.ledger.Sound) : linker'.ledger.Sound := by
  rw [h.ledger]
  exact Ledger.kept_sound.foldl hs events

/-- The aims of the later part are those of the earlier one. -/
theorem Step.append (hs : linker.ledger.Sound) (h : Step address imageEnd events patches linker middle)
    (h' : Step address imageEnd more others middle linker') :
    Step address imageEnd (events ++ more) (patches ++ others) linker linker' where
  ledger := by rw [h'.ledger, h.ledger, List.foldl_append]
  written target ht := by
    refine (h.written target ?_).append (h'.written target ht)
    rw [h'.ledger] at ht
    exact (h.sound hs).aims_of_foldl ht

theorem forEach_step {I : Ledger → Prop} (hI : Ledger.Kept I) {f : α → Link Unit}
    (events : α → List Event) (patches : α → List (Nat × Patch)) {as : List α}
    (step : ∀ a ∈ as, ∀ linker linker', I linker.ledger → run (f a) linker = (.ok (), linker') →
      Step address imageEnd (events a) (patches a) linker linker')
    (h : I linker.ledger) (hr : run (Action.forEach as f) linker = (.ok (), linker')) :
    Step address imageEnd (as.flatMap events) (as.flatMap patches) linker linker' := by
  refine Action.forEach_invariant (fun done (linker' : Linker) ↦
    Step address imageEnd (done.flatMap events) (done.flatMap patches) linker linker') ?_ (.nil linker) hr
  intro done a rest middle after hsplit hdone hr
  have hmiddle : I middle.ledger := hdone.ledger ▸ hI.foldl h _
  have hstep := step a (by simp [hsplit]) middle after hmiddle hr
  rw [List.flatMap_append, List.flatMap_append, List.flatMap_singleton, List.flatMap_singleton]
  exact hdone.append (hI.sound _ h) hstep

theorem addDefinition_step {place : Int} {definition : Definition}
    (hr : run (addDefinition place definition) linker = (.ok (), linker')) :
    Step address imageEnd [definition.event place] [] linker linker' := by
  rw [addDefinition] at hr
  split at hr <;> rename_i ha
  · obtain ⟨_, middle, hdefine, hr⟩ := Action.run_bind_eq_ok.mp hr
    obtain ⟨hledger, hbuffers⟩ := of_run_defineAbsolute hdefine
    cases hr
    rw [Definition.event, if_pos ha]
    exact ⟨hledger, fun _ _ ↦ hbuffers ▸ .nil _⟩
  · obtain ⟨_, middle, hdefine, hr⟩ := Action.run_bind_eq_ok.mp hr
    obtain ⟨hledger, hbuffers⟩ := of_run_define hdefine
    rw [Action.run_bind_ok (Action.run_get _)] at hr
    rw [Definition.event, if_neg ha]
    split at hr
    · cases hr
      exact ⟨hledger, fun _ _ ↦ hbuffers ▸ .nil _⟩
    · cases hr
      exact ⟨hledger, fun _ _ ↦ hbuffers ▸ .nil _⟩

theorem patch_step {id : Nat} {reference : Reference} {target offset : Int}
    (ht : linker.ledger.aim? reference.name = some target)
    (hr : run (patch imageEnd (address id) id reference target offset) linker = (.ok (), linker')) :
    Step address imageEnd [] [(id, ⟨reference.name, reference.kind, reference.width, offset⟩)]
      linker linker' := by
  obtain ⟨start, hplace, rfl⟩ := patch_eq_ok.mp hr
  refine ⟨rfl, fun targets haims other data hd ↦ ?_⟩
  have htarget : targets reference.name = target := haims _ _ ht
  rw [Array.getElem?_modify]
  by_cases ho : id = other
  · subst ho
    rw [Array.getD_eq_getD_getElem?, hd, Option.getD_some] at hplace
    refine ⟨_, by rw [if_pos rfl, hd]; rfl, ?_⟩
    simp [Patch.writeAll?, Bytes.write?, hplace, htarget]
  · rw [if_neg ho]
    exact ⟨data, hd, by simp [Patch.writeAll?, ho]⟩

theorem addReference_step {id : Nat} {reference : Reference} (hs : linker.ledger.Sound)
    (hr : run (addReference imageEnd (address id) id reference) linker = (.ok (), linker')) :
    Step address imageEnd [.reference reference.name] (reference.patches.map (id, ·)) linker linker' := by
  obtain ⟨target, middle, hresolve, hr⟩ := Action.run_bind_eq_ok.mp hr
  obtain ⟨hledger, hbuffers, haim⟩ := of_run_resolve hresolve
  have hfirst : Step address imageEnd [.reference reference.name] [] linker middle :=
    ⟨hledger, fun _ _ ↦ hbuffers ▸ .nil _⟩
  have hpatches : Step address imageEnd (reference.offsets.flatMap fun _ ↦ [])
      (reference.offsets.flatMap fun offset ↦
        [(id, ⟨reference.name, reference.kind, reference.width, offset⟩)]) middle linker' :=
    forEach_step (Ledger.kept_aim reference.name target) _ _ (fun _ _ _ _ h hr ↦ patch_step h.2 hr)
      ⟨hfirst.sound hs, haim⟩ hr
  have hall := hfirst.append hs hpatches
  rw [List.flatMap_eq_nil_iff.mpr fun _ _ ↦ rfl, List.append_nil, List.nil_append] at hall
  rwa [Reference.patches, List.map_map, List.map_eq_flatMap]

variable (address) in
theorem segment_step {id : Nat} {segment : Segment} (hs : linker.ledger.Sound)
    (hr : run (do
      Action.forEach segment.definitions (addDefinition (address id))
      Action.forEach segment.references (addReference imageEnd (address id) id)) linker =
        (.ok (), linker')) :
    Step address imageEnd (segment.events (address id)) (segment.patches.map (id, ·)) linker linker' := by
  obtain ⟨_, middle, hdefinitions, hreferences⟩ := Action.run_bind_eq_ok.mp hr
  have hfirst : Step address imageEnd (segment.definitions.flatMap fun definition ↦
      [definition.event (address id)]) (segment.definitions.flatMap fun _ ↦ []) linker middle :=
    forEach_step Ledger.kept_sound _ _ (fun _ _ _ _ _ hr ↦ addDefinition_step hr) hs hdefinitions
  have hsecond := forEach_step Ledger.kept_sound (fun reference : Reference ↦ [.reference reference.name])
    (fun reference ↦ reference.patches.map (id, ·)) (fun _ _ _ _ h hr ↦ addReference_step h hr)
    (hfirst.sound hs) hreferences
  have hall := hfirst.append hs hsecond
  rw [List.flatMap_eq_nil_iff.mpr fun _ _ ↦ rfl, List.nil_append, ← List.map_eq_flatMap,
    ← List.map_eq_flatMap] at hall
  rwa [Segment.events, Segment.patches, List.map_flatMap]

variable {image : Image} {addresses : List Int}

theorem link_step (hs : linker.ledger.Sound)
    (hr : run (link image addresses imageEnd) linker = (.ok (), linker')) :
    Step (fun id ↦ addresses.getD id 0) imageEnd (image.events addresses)
      (image.segments.zipIdx.flatMap fun (segment, id) ↦ segment.patches.map (id, ·)) linker linker' :=
  forEach_step Ledger.kept_sound (fun (segment, id) ↦ segment.events (addresses.getD id 0))
    (fun (segment, id) ↦ segment.patches.map (id, ·))
    (fun _ _ _ _ h hr ↦ segment_step (fun id ↦ addresses.getD id 0) h hr) hs hr

end Linker

theorem flatMap_zipIdx_at {α β : Type} {as : List α} {a : α} {i : Nat} (f : α → List β)
    (h : as[i]? = some a) (first : Nat) :
    ((as.zipIdx first).flatMap fun entry ↦ if entry.2 = first + i then f entry.1 else []) = f a := by
  induction as generalizing i first with
  | nil => cases h
  | cons a' as ih =>
    rw [List.zipIdx_cons, List.flatMap_cons]
    cases i with
    | zero =>
      cases h
      rw [if_pos (Nat.add_zero first).symm, List.append_right_eq_self, List.flatMap_eq_nil_iff]
      intro entry hm
      have hle := List.le_snd_of_mem_zipIdx hm
      exact if_neg (by omega)
    | succ i =>
      have hrest := ih h (first + 1)
      rw [Nat.add_assoc, Nat.add_comm 1 i] at hrest
      rw [if_neg (by omega), List.nil_append, hrest]

/-- The patches of an image in one segment are those of that segment. -/
theorem Image.patches_of_segment {image : Image} {id : Nat} {segment : Segment}
    (hs : image.segments[id]? = some segment) :
    ((image.segments.zipIdx.flatMap fun (segment, id) ↦ segment.patches.map (id, ·)).filterMap
      fun (i, patch) ↦ if i = id then some patch else none) = segment.patches := by
  have hone : ∀ entry : Segment × Nat, ((entry.1.patches.map (entry.2, ·)).filterMap
      fun (i, patch) ↦ if i = id then some patch else none) =
        if entry.2 = 0 + id then entry.1.patches else [] := by
    intro entry
    rw [List.filterMap_map, Nat.zero_add]
    by_cases hj : entry.2 = id <;> simp [hj]
  rw [List.filterMap_flatMap, funext hone]
  exact flatMap_zipIdx_at Segment.patches hs 0

namespace Linker

/-- How a link has placed the names of events. -/
structure Placed (linker : Linker) (events : List Event) : Prop where
  defs : linker.defs.names.Nodup
  refs : linker.refs.names.Nodup
  /-- A name has two slots exactly if it is to have one of each kind and could not get its label. -/
  both : ∀ name, (name ∈ linker.defs.names ∧ name ∈ linker.refs.names) ↔
    linker.host.program.address? name = none ∧ (∃ value, .absolute name value ∈ events) ∧
      .reference name ∈ events

variable {linker linker' : Linker} {image : Image} {addresses : List Int} {imageEnd : Int}

theorem placed_of_ledger {events : List Event} (hs : linker.ledger.Sound)
    (hc : linker.ledger.Covers events) : linker.Placed events := by
  refine ⟨hs.defs, hs.refs, fun name ↦ ⟨fun ⟨hd, hr⟩ ↦ ?_, fun ⟨hn, ⟨value, hvalued⟩, hopened⟩ ↦ ?_⟩⟩
  · obtain ⟨valued, hvalued, hv, rfl⟩ := hc.defs name hd
    obtain ⟨opened, hopened, ho, hname⟩ := hc.refs _ hr
    refine ⟨Ledger.known_eq_false.mp (hs.single _ hd hr), ?_, ?_⟩
    · obtain ⟨value, hv⟩ := Event.eq_absolute hv
      exact ⟨value, hv ▸ hvalued⟩
    · rw [← hname, ← Event.eq_reference ho]
      exact hopened
  · have hk : ¬ linker.ledger.known name := Bool.eq_false_iff.mp (Ledger.known_eq_false.mpr hn)
    obtain ⟨-, hd⟩ | ⟨hv, -⟩ := (hc.has _ hvalued (Or.inl rfl)).resolve_left hk
    · obtain ⟨ho, -⟩ | ⟨-, hr⟩ := (hc.has _ hopened (Or.inr rfl)).resolve_left hk
      · exact absurd ho Bool.false_ne_true
      · exact ⟨hd, hr⟩
    · exact absurd hv Bool.false_ne_true

/-- Whatever labels could not be set, each name has at most one slot in each store, and all references to
it hold one address. It has a slot in both stores only if its label could not be set. -/
theorem link_placed (hdefs : ∀ slot ∈ linker.defs.slots, slot.name = none)
    (hrefs : ∀ slot ∈ linker.refs.slots, slot.name = none)
    (h : (link image addresses imageEnd linker).result = .ok ()) :
    ∃ linked, (link image addresses imageEnd linker).state = linked ∧
      linked.Placed (image.events addresses) ∧
      (linker.host.limits.lookup .createLabel = none →
        ∀ name, ¬ (name ∈ linked.defs.names ∧ name ∈ linked.refs.names)) ∧
      ∃ target : String → Int,
        (∀ name, .reference name ∈ image.events addresses →
          (linked.host.program.address? name).or (linked.refs.lookup? name) = some (target name)) ∧
        ∀ (id : Nat) (segment : Segment) (before : Bytes), image.segments[id]? = some segment →
          linker.buffers[id]? = some before →
          ∃ after, linked.buffers[id]? = some after ∧
            Patch.writeAll? segment.patches target (addresses.getD id 0) imageEnd before = some after := by
  have hd : linker.ledger.defs.names = [] := SlotStore.names_eq_nil hdefs
  have hr : linker.ledger.refs.names = [] := SlotStore.names_eq_nil hrefs
  have hsound : linker.ledger.Sound := ⟨by simp [hd], by simp [hr], by simp [hd, hr], by simp [hd]⟩
  have hcovers : linker.ledger.Covers [] := ⟨by simp [hd], by simp [hr], by simp⟩
  have hstep := link_step hsound (Action.result_eq h)
  set linked := (link image addresses imageEnd linker).state with hlinked
  have hcovered : linked.ledger.Covers (image.events addresses) := hstep.ledger ▸ hcovers.foldl _
  refine ⟨linked, rfl, placed_of_ledger (hstep.sound hsound) hcovered, fun hn name hboth ↦ ?_,
    linked.ledger.target, fun name ho ↦ ?_, fun id segment before hs hb ↦ ?_⟩
  · have hbudget : linked.ledger.budget = none :=
      hstep.ledger ▸ (Ledger.kept_unlimited.foldl ⟨hsound, hn⟩ _).2
    rcases (hstep.sound hsound).labelled name (Or.inl hboth.1) with hk | hb
    · rw [(hstep.sound hsound).single name hboth.1 hboth.2] at hk
      cases hk
    · rw [hbudget] at hb
      cases hb
  · have haim : (linked.ledger.aim? name).isSome := by
      rw [Ledger.aim?, Option.isSome_or, Bool.or_eq_true]
      rcases hcovered.has _ ho (Or.inr rfl) with hk | ⟨hv, -⟩ | ⟨-, hr⟩
      · exact Or.inl hk
      · exact absurd hv Bool.false_ne_true
      · exact Or.inr (SlotStore.lookup?_isSome.mpr hr)
    obtain ⟨address, ha⟩ := Option.isSome_iff_exists.mp haim
    exact ha.trans (congrArg some (linked.ledger.aims_target name address ha).symm)
  · obtain ⟨after, ha, hw⟩ := hstep.written _ linked.ledger.aims_target id before hb
    rw [Image.patches_of_segment hs] at hw
    exact ⟨after, ha, hw⟩

/-- A segment that refers to a name which it defines as an absolute value. -/
def selfish : Segment :=
  { caller with
    size := 4
    data := some (Bytes.zeros 4)
    definitions := [⟨"x", 7, .absolute⟩]
    references := [⟨"x", .absolute, .long, [0], .ref32, none⟩] }

/-- A name whose label could not be set gets a second slot, and the reference leads there and not to
the value. -/
theorem absolute_placed_twice :
    let image : Image := ⟨.unit, [selfish]⟩
    let linked := link image [0x1000] 0x1004
      (start ⟨.empty, [(.createLabel, 0)]⟩ [Bytes.zeros 4] 0x1000 0x1004)
    linked.result = .ok () ∧
      linked.state.defs.names = ["x"] ∧ linked.state.refs.names = ["x"] ∧
      linked.state.defs.lookup? "x" = some 0x11000 ∧ linked.state.refs.lookup? "x" = some 0x1004 ∧
      linked.state.buffers = #[#[0, 0, 0x10, 4]] := by
  decide +kernel

theorem link_placed_sample :
    let image : Image := ⟨.unit, [caller, callee]⟩
    let before := start (.ofProgram sampleProgram) [Bytes.zeros 12, Bytes.zeros 4] 0x1000 0x1010
    (∀ slot ∈ before.defs.slots, slot.name = none) ∧ (∀ slot ∈ before.refs.slots, slot.name = none) ∧
      (link image [0x1000, 0x100c] 0x1010 before).result = .ok () ∧
      ∃ linked, (link image [0x1000, 0x100c] 0x1010 before).state = linked ∧
        ∀ name, ¬ (name ∈ linked.defs.names ∧ name ∈ linked.refs.names) := by
  intro image before
  have hdefs : ∀ slot ∈ before.defs.slots, slot.name = none := by
    simp [before, start, SlotStore.empty]
  have hrefs : ∀ slot ∈ before.refs.slots, slot.name = none := by
    simp [before, start, SlotStore.empty]
  have h : (link image [0x1000, 0x100c] 0x1010 before).result = .ok () := by decide +kernel
  obtain ⟨linked, hstate, -, hsingle, -⟩ := link_placed hdefs hrefs h
  exact ⟨hdefs, hrefs, h, linked, hstate, hsingle rfl⟩

end Linker

end Hunks
