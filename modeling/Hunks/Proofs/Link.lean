import Mathlib
import Hunks.Link
import Hunks.Proofs.Bytes.Span
import Hunks.Proofs.Host
import Hunks.Proofs.Link.Minted

namespace Hunks

open Hunks.Action (run)

namespace Linker

variable {linker linker' : Linker} {α : Type}

/-- What a linker knows about names. -/
def names (linker : Linker) : NameTable :=
  ⟨linker.host, linker.defs, linker.refs, linker.diagnostics⟩

theorem run_onHost (operation : Operation) (address : Option Int) (x : Host.Access α)
    (linker : Linker) :
    run (onHost operation address x) linker =
      ((run x linker.host).1.mapError fun inner ↦ .host ⟨operation, address, inner⟩,
        { linker with host := (run x linker.host).2 }) := by
  rw [onHost, Action.run_focus, Action.run_mapError, Host.call, Action.run_mapError]
  cases (run x linker.host).1 <;> rfl

theorem run_lookup (h : linker.host.Reliable) (name : String) :
    run (lookup name) linker = (.ok (linker.names.address? name), linker) := by
  rw [lookup, run_onHost, Host.run_lookupGlobal h]
  rfl

theorem run_label (linker : Linker) (h : linker.host.Reliable) {name : String} (address : Int)
    (origin : String) (hn : linker.names.address? name = none) :
    run (label address name origin) linker =
      (.ok (), { linker with host := linker.names.withLabels [⟨address, name, origin⟩] }) := by
  have hadd := Program.addLabel_eq ⟨address, name, origin⟩ hn
  rw [label, Action.run_bind, Action.run_attempt, run_onHost, Host.run_createLabel h]
  dsimp only
  rw [show linker.host = linker.names.host from rfl, hadd]
  rfl

/-- A linker in which an event has been entered. -/
def bind (linker : Linker) (event : Event) : Linker :=
  { linker with
    host := (linker.names.bind event).host
    defs := (linker.names.bind event).defs
    refs := (linker.names.bind event).refs
    diagnostics := (linker.names.bind event).diagnostics }

theorem names_bind (linker : Linker) (event : Event) :
    (linker.bind event).names = linker.names.bind event := rfl

theorem bind_known (event : Event) {address : Int}
    (h : linker.names.address? event.name = some address) : linker.bind event = linker := by
  rw [bind, NameTable.bind, if_pos (by rw [NameTable.known, h]; rfl)]
  rfl

theorem bind_new (event : Event) (h : linker.names.address? event.name = none) :
    linker.names.bind event = linker.names.take event := by
  rw [NameTable.bind, if_neg (by rw [NameTable.known, h]; exact Bool.false_ne_true)]

/-- A new name has the address of the label that its event sets. -/
theorem address?_bind (event : Event) (hn : linker.names.address? event.name = none) (address : Int)
    (origin : String) (hl : (linker.names.take event).host =
      linker.names.withLabels [⟨address, event.name, origin⟩]) :
    (linker.bind event).names.address? event.name = some address := by
  rw [names_bind, bind_new event hn, NameTable.address?, hl, NameTable.address?_withLabels, hn,
    Option.none_or, List.find?_singleton]
  simp

/-- The answer is the address that the name has afterwards. -/
theorem run_defineAbsolute (h : linker.names.Steady) (name : String) (value : Int) :
    ∃ address, run (defineAbsolute name value) linker =
        (.ok address, linker.bind (.absolute name value)) ∧
      (linker.bind (.absolute name value)).names.address? name = some address := by
  rw [defineAbsolute, Action.run_bind_ok (run_lookup h.reliable name)]
  cases hn : linker.names.address? name with
  | some address =>
    rw [bind_known (.absolute name value) hn]
    exact ⟨address, rfl, hn⟩
  | none =>
    have hd : linker.defs.lookup? name = none := h.lookup?_defs hn
    have hadd : linker.defs.add name (some value) =
        (linker.defs.stop, linker.defs.extend [⟨some name, some value⟩]) := SlotStore.add_eq hd
    have hlabel := run_label { linker with
      defs := linker.defs.extend [⟨some name, some value⟩] } h.reliable linker.defs.stop
      Label.userDefined hn
    refine ⟨linker.defs.stop, ?_,
      address?_bind (.absolute name value) hn linker.defs.stop Label.userDefined rfl⟩
    simp only [Action.run_bind, Action.run_get, hd, hadd, Action.run_modify, Action.run_debug, hlabel,
      Action.run_pure]
    rw [bind, bind_new (.absolute name value) hn]
    rfl

theorem run_define (h : linker.names.Steady) (name : String) (address : Int) :
    ∃ known, run (define name address) linker =
        (.ok known, linker.bind (.definition name address)) ∧
      (linker.bind (.definition name address)).names.address? name = some known := by
  rw [define, Action.run_bind_ok (run_lookup h.reliable name)]
  cases hn : linker.names.address? name with
  | some known =>
    rw [bind_known (.definition name address) hn]
    refine ⟨known, ?_, hn⟩
    dsimp only
    split <;> rfl
  | none =>
    refine ⟨address, ?_, address?_bind (.definition name address) hn address Label.userDefined rfl⟩
    dsimp only
    rw [Action.run_bind_ok (run_label _ h.reliable address Label.userDefined hn), bind,
      bind_new (.definition name address) hn]
    rfl

theorem run_resolve (h : linker.names.Steady) (name : String) :
    ∃ address, run (resolve name) linker = (.ok address, linker.bind (.reference name)) ∧
      (linker.bind (.reference name)).names.address? name = some address := by
  rw [resolve, Action.run_bind_ok (run_lookup h.reliable name)]
  cases hn : linker.names.address? name with
  | some address =>
    rw [bind_known (.reference name) hn]
    exact ⟨address, rfl, hn⟩
  | none =>
    have hr : linker.refs.lookup? name = none := h.lookup?_refs hn
    have hadd : linker.refs.add name none =
        (linker.refs.stop, linker.refs.extend [⟨some name, none⟩]) := SlotStore.add_eq hr
    have hlabel := run_label { linker with
      refs := linker.refs.extend [⟨some name, none⟩]
      diagnostics := linker.diagnostics.push ⟨.unresolvedExternal, name, linker.refs.stop⟩ }
      h.reliable linker.refs.stop Label.imported hn
    refine ⟨linker.refs.stop, ?_, address?_bind (.reference name) hn linker.refs.stop Label.imported rfl⟩
    simp only [Action.run_bind, Action.run_get, hr, hadd, Action.run_modify, Action.run_info, hlabel,
      Action.run_pure]
    rw [bind, bind_new (.reference name) hn]
    rfl

end Linker

/-- What a definition says in a segment at an address. -/
def Definition.event (definition : Definition) (address : Int) : Event :=
  if definition.absolute then
    .absolute definition.name definition.offset
  else
    .definition definition.name (address + definition.offset)

/-- The definitions of a segment count before its references. -/
def Segment.events (segment : Segment) (address : Int) : List Event :=
  segment.definitions.map (·.event address) ++
    segment.references.map fun reference ↦ .reference reference.name

def Image.events (image : Image) (addresses : List Int) : List Event :=
  image.segments.zipIdx.flatMap fun (segment, id) ↦ segment.events (addresses.getD id 0)

/-- A place in a segment that holds the address of a name in some form. -/
structure Patch where
  name : String
  kind : RefKind
  width : Width
  offset : Int
  deriving DecidableEq, Repr

def Patch.span (patch : Patch) : Span :=
  ⟨patch.offset.toNat, patch.width.bytes⟩

namespace Patch

/-- The bytes of a segment at an address with the form of a target in them. -/
def apply (patch : Patch) (target address imageEnd : Int) (data : Bytes) : Bytes :=
  Bytes.overwrite data patch.offset.toNat (Bytes.ofInt patch.width.bytes
    (Linker.patchValue patch.kind target (address + patch.offset) imageEnd))

def applyAll (patches : List Patch) (target : String → Int) (address imageEnd : Int) (data : Bytes) :
    Bytes :=
  patches.foldl (fun data patch ↦ patch.apply (target patch.name) address imageEnd data) data

variable {target : String → Int} {address imageEnd : Int}

theorem applyAll_append (patches more : List Patch) (data : Bytes) :
    applyAll (patches ++ more) target address imageEnd data =
      applyAll more target address imageEnd (applyAll patches target address imageEnd data) :=
  List.foldl_append

theorem applyAll_cons (patch : Patch) (patches : List Patch) (data : Bytes) :
    applyAll (patch :: patches) target address imageEnd data =
      applyAll patches target address imageEnd (patch.apply (target patch.name) address imageEnd data) :=
  rfl

theorem sameOutside_applyAll (patches : List Patch) (data : Bytes) :
    Bytes.SameOutside (patches.map Patch.span) data
      (applyAll patches target address imageEnd data) := by
  induction patches generalizing data with
  | nil => exact .refl data
  | cons patch patches ih =>
    have hone := Bytes.SameOutside.overwrite data patch.offset.toNat (Bytes.ofInt patch.width.bytes
      (Linker.patchValue patch.kind (target patch.name) (address + patch.offset) imageEnd))
    rw [Bytes.length_ofInt] at hone
    exact hone.trans (ih _)

/-- What a patch writes stays there if no later one overlaps it. -/
theorem field_applyAll {pre post : List Patch} {patch : Patch} {data : Bytes}
    (ho : 0 ≤ patch.offset) (hs : patch.offset + patch.width.bytes ≤ data.size)
    (hlater : ∀ later ∈ post, patch.span.Apart later.span) :
    ((applyAll (pre ++ patch :: post) target address imageEnd data).field patch.span : Int) =
      Linker.patchValue patch.kind (target patch.name) (address + patch.offset) imageEnd %
        2 ^ (8 * patch.width.bytes) := by
  have hsize : (applyAll pre target address imageEnd data).size = data.size :=
    (sameOutside_applyAll pre data).1
  rw [applyAll_append, applyAll_cons, (sameOutside_applyAll post _).field_eq (by simpa using hlater)]
  exact Bytes.field_overwrite_ofInt _ (by omega)

/-- How the buffers change when patches are made in one of them. -/
structure Made (patches : List Patch) (target : String → Int) (address imageEnd : Int) (id : Nat)
    (before after : Array Bytes) : Prop where
  buffer : after[id]? = before[id]?.map (applyAll patches target address imageEnd)
  others : ∀ other, other ≠ id → after[other]? = before[other]?
  inside : ∀ patch ∈ patches, ∀ data ∈ before[id]?,
    0 ≤ patch.offset ∧ patch.offset + patch.width.bytes ≤ data.size

theorem Made.nil (id : Nat) (buffers : Array Bytes) :
    Made [] target address imageEnd id buffers buffers where
  buffer := by
    cases buffers[id]? <;> rfl
  others _ _ := rfl
  inside := by simp

theorem Made.append {patches more : List Patch} {id : Nat} {before middle after : Array Bytes}
    (h : Made patches target address imageEnd id before middle)
    (h' : Made more target address imageEnd id middle after) :
    Made (patches ++ more) target address imageEnd id before after where
  buffer := by
    rw [h'.buffer, h.buffer]
    cases before[id]? with
    | none => rfl
    | some data => exact congrArg some (applyAll_append patches more data).symm
  others other hne := (h'.others other hne).trans (h.others other hne)
  inside patch hm data hd := by
    rcases List.mem_append.mp hm with hm | hm
    · exact h.inside patch hm data hd
    · have hsize : (applyAll patches target address imageEnd data).size = data.size :=
        (sameOutside_applyAll patches data).1
      rw [← hsize]
      refine h'.inside patch hm _ ?_
      rw [h.buffer, Option.mem_def.mp hd]
      rfl

end Patch

def Reference.patches (reference : Reference) : List Patch :=
  reference.offsets.map fun offset ↦ ⟨reference.name, reference.kind, reference.width, offset⟩

/-- The patches of a segment in the order in which they are made. -/
def Segment.patches (segment : Segment) : List Patch :=
  segment.references.flatMap Reference.patches

namespace Linker

variable {linker linker' : Linker}

theorem run_addDefinition (h : linker.names.Steady) (address : Int) (definition : Definition)
    (hr : run (addDefinition address definition) linker = (.ok (), linker')) :
    linker'.names = linker.names.bind (definition.event address) ∧
      linker'.buffers = linker.buffers := by
  rw [addDefinition] at hr
  split at hr <;> rename_i ha
  · obtain ⟨slot, hs, -⟩ := run_defineAbsolute h definition.name definition.offset
    rw [Action.run_bind_ok hs] at hr
    cases hr
    rw [Definition.event, if_pos ha]
    exact ⟨rfl, rfl⟩
  · obtain ⟨known, hk, -⟩ := run_define h definition.name (address + definition.offset)
    rw [Action.run_bind_ok hk] at hr
    rw [Action.run_bind, Action.run_get] at hr
    rw [Definition.event, if_neg ha]
    dsimp only at hr
    split at hr
    · cases hr
      exact ⟨rfl, rfl⟩
    · cases hr
      exact ⟨rfl, rfl⟩

theorem run_addDefinitions (h : linker.names.Steady) (address : Int) {definitions : List Definition}
    (hr : run (Action.forEach definitions (addDefinition address)) linker = (.ok (), linker')) :
    linker'.names = (definitions.map (·.event address)).foldl NameTable.bind linker.names ∧
      linker'.buffers = linker.buffers := by
  refine Action.forEach_invariant (fun done (linker' : Linker) ↦
    linker'.names = (done.map (·.event address)).foldl NameTable.bind linker.names ∧
      linker'.buffers = linker.buffers) ?_ ⟨rfl, rfl⟩ hr
  rintro done definition rest middle after - ⟨hnames, hbuffers⟩ hstep
  have hsteady : middle.names.Steady := by
    rw [hnames]
    exact h.foldl _
  obtain ⟨hn, hb⟩ := run_addDefinition hsteady address definition hstep
  rw [hn, hb, hnames, hbuffers, List.map_append, List.foldl_append]
  exact ⟨rfl, rfl⟩

/-- A patch is made wherever its bytes lie in the buffer; a place in front of the start counts from
the end. -/
theorem patch_eq_ok {imageEnd address target offset : Int} {id : Nat} {reference : Reference} :
    run (patch imageEnd address id reference target offset) linker = (.ok (), linker') ↔
      ∃ start, Bytes.place? (linker.buffers.getD id #[]) offset reference.width.bytes = some start ∧
        linker' = { linker with
          buffers := linker.buffers.modify id (Bytes.overwrite · start
            (Bytes.ofInt reference.width.bytes
              (patchValue reference.kind target (address + offset) imageEnd))) } := by
  rw [patch, Action.run_bind, Action.run_get]
  dsimp only
  rw [Action.run_guard_eq_ok, Action.run_bind_ok (Action.run_debug ..), Action.run_bind,
    Action.run_get]
  dsimp only
  cases hplace : Bytes.place? (linker.buffers.getD id #[]) offset reference.width.bytes with
  | none => simp
  | some start =>
    have hinside := Bytes.place?_le hplace
    simp only [Action.run_modify, Prod.mk.injEq, true_and, Option.some.injEq, exists_eq_left']
    constructor
    · rintro ⟨-, h⟩
      exact h.symm
    · intro h
      exact ⟨by omega, h.symm⟩

theorem run_patch {imageEnd address target offset : Int} {id : Nat} {reference : Reference}
    (ho : 0 ≤ offset)
    (hr : run (patch imageEnd address id reference target offset) linker = (.ok (), linker')) :
    offset + reference.width.bytes ≤ (linker.buffers.getD id #[]).size ∧
      linker' = { linker with
        buffers := linker.buffers.modify id (Bytes.overwrite · offset.toNat
          (Bytes.ofInt reference.width.bytes
            (patchValue reference.kind target (address + offset) imageEnd))) } := by
  obtain ⟨start, hplace, rfl⟩ := patch_eq_ok.mp hr
  obtain ⟨hs, rfl⟩ := (Bytes.place?_eq_some ho).mp hplace
  exact ⟨hs, rfl⟩

theorem made_patch {imageEnd address offset : Int} {id : Nat} {reference : Reference}
    {target : String → Int} (ho : 0 ≤ offset)
    (hr : run (patch imageEnd address id reference (target reference.name) offset) linker =
      (.ok (), linker')) :
    linker'.names = linker.names ∧
      Patch.Made [⟨reference.name, reference.kind, reference.width, offset⟩] target address imageEnd id
        linker.buffers linker'.buffers := by
  obtain ⟨hs, rfl⟩ := run_patch ho hr
  refine ⟨rfl, ?_, fun other hne ↦ ?_, fun patch hm data hd ↦ ?_⟩
  · rw [Array.getElem?_modify, if_pos rfl]
    rfl
  · rw [Array.getElem?_modify, if_neg (Ne.symm hne)]
  · obtain rfl := List.mem_singleton.mp hm
    rw [Array.getD_eq_getD_getElem?, Option.mem_def.mp hd, Option.getD_some] at hs
    exact ⟨ho, hs⟩

theorem run_addReference (h : linker.names.Steady) {imageEnd address : Int} {id : Nat}
    {reference : Reference} (ho : ∀ offset ∈ reference.offsets, 0 ≤ offset) {target : String → Int}
    (ht : (linker.names.bind (.reference reference.name)).Agrees target)
    (hr : run (addReference imageEnd address id reference) linker = (.ok (), linker')) :
    linker'.names = linker.names.bind (.reference reference.name) ∧
      Patch.Made reference.patches target address imageEnd id linker.buffers linker'.buffers := by
  obtain ⟨known, hresolve, hknown⟩ := run_resolve h reference.name
  rw [addReference, Action.run_bind_ok hresolve, ← ht _ _ hknown] at hr
  refine Action.forEach_invariant (fun done (linker' : Linker) ↦
    linker'.names = linker.names.bind (.reference reference.name) ∧
      Patch.Made (done.map fun offset ↦ ⟨reference.name, reference.kind, reference.width, offset⟩)
        target address imageEnd id linker.buffers linker'.buffers) (s := linker.bind _) ?_
    ⟨rfl, Patch.Made.nil _ _⟩ hr
  rintro done offset rest middle after hsplit ⟨hnames, hmade⟩ hstep
  obtain ⟨hn, hm⟩ := made_patch (ho offset (by simp [hsplit])) hstep
  rw [hn, hnames, List.map_append]
  exact ⟨rfl, hmade.append hm⟩

theorem run_addReferences (h : linker.names.Steady) {imageEnd address : Int} {id : Nat}
    {references : List Reference} (ho : ∀ reference ∈ references, ∀ offset ∈ reference.offsets, 0 ≤ offset)
    {target : String → Int}
    (ht : ((references.map fun reference ↦ Event.reference reference.name).foldl NameTable.bind
      linker.names).Agrees target)
    (hr : run (Action.forEach references (addReference imageEnd address id)) linker =
      (.ok (), linker')) :
    linker'.names = (references.map fun reference ↦ Event.reference reference.name).foldl NameTable.bind
        linker.names ∧
      Patch.Made (references.flatMap Reference.patches) target address imageEnd id linker.buffers
        linker'.buffers := by
  refine Action.forEach_invariant (fun done (linker' : Linker) ↦
    linker'.names = (done.map fun reference ↦ Event.reference reference.name).foldl NameTable.bind
        linker.names ∧
      Patch.Made (done.flatMap Reference.patches) target address imageEnd id linker.buffers
        linker'.buffers) ?_ ⟨rfl, Patch.Made.nil _ _⟩ hr
  rintro done reference rest middle after hsplit ⟨hnames, hmade⟩ hstep
  have hsteady : middle.names.Steady := by
    rw [hnames]
    exact h.foldl _
  rw [hsplit, List.map_append, List.foldl_append, ← hnames, List.map_cons, List.foldl_cons] at ht
  obtain ⟨hn, hm⟩ := run_addReference hsteady (ho reference (by simp [hsplit])) ht.of_foldl hstep
  rw [hn, hnames, List.map_append, List.foldl_append, List.flatMap_append]
  exact ⟨rfl, hmade.append (by simpa using hm)⟩

theorem run_segment (h : linker.names.Steady) {imageEnd address : Int} {id : Nat} {segment : Segment}
    (ho : ∀ reference ∈ segment.references, ∀ offset ∈ reference.offsets, 0 ≤ offset)
    {target : String → Int}
    (ht : ((segment.events address).foldl NameTable.bind linker.names).Agrees target)
    (hr : run (do
      Action.forEach segment.definitions (addDefinition address)
      Action.forEach segment.references (addReference imageEnd address id)) linker = (.ok (), linker')) :
    linker'.names = (segment.events address).foldl NameTable.bind linker.names ∧
      Patch.Made segment.patches target address imageEnd id linker.buffers linker'.buffers := by
  obtain ⟨_, middle, hdefinitions, hreferences⟩ := Action.run_bind_eq_ok.mp hr
  obtain ⟨hnames, hbuffers⟩ := run_addDefinitions h address hdefinitions
  have hsteady : middle.names.Steady := by
    rw [hnames]
    exact h.foldl _
  rw [Segment.events, List.foldl_append, ← hnames] at ht ⊢
  rw [← hbuffers]
  exact run_addReferences hsteady ho ht hreferences

/-- The buffers of the first segments are patched, the others untouched. -/
structure LinkedUpTo (image : Image) (addresses : List Int) (imageEnd : Int) (target : String → Int)
    (count : Nat) (before after : Array Bytes) : Prop where
  buffer : ∀ id < count, ∀ segment, image.segments[id]? = some segment →
    after[id]? = before[id]?.map
      (Patch.applyAll segment.patches target (addresses.getD id 0) imageEnd)
  inside : ∀ id < count, ∀ segment, image.segments[id]? = some segment →
    ∀ patch ∈ segment.patches, ∀ data ∈ before[id]?,
      0 ≤ patch.offset ∧ patch.offset + patch.width.bytes ≤ data.size
  rest : ∀ id, count ≤ id → after[id]? = before[id]?

variable {image : Image} {addresses : List Int} {imageEnd : Int} {target : String → Int}

theorem LinkedUpTo.zero (buffers : Array Bytes) :
    LinkedUpTo image addresses imageEnd target 0 buffers buffers where
  buffer id hi := absurd hi (Nat.not_lt_zero id)
  inside id hi := absurd hi (Nat.not_lt_zero id)
  rest _ _ := rfl

theorem LinkedUpTo.succ {count : Nat} {before middle after : Array Bytes} {segment : Segment}
    (h : LinkedUpTo image addresses imageEnd target count before middle)
    (hs : image.segments[count]? = some segment)
    (hm : Patch.Made segment.patches target (addresses.getD count 0) imageEnd count middle after) :
    LinkedUpTo image addresses imageEnd target (count + 1) before after where
  buffer id hi segment' hs' := by
    by_cases he : id = count
    · subst he
      cases hs.symm.trans hs'
      rw [hm.buffer, h.rest id le_rfl]
    · rw [hm.others id he, h.buffer id (by omega) segment' hs']
  inside id hi segment' hs' patch hp data hd := by
    by_cases he : id = count
    · subst he
      cases hs.symm.trans hs'
      exact hm.inside patch hp data (by rwa [h.rest id le_rfl])
    · exact h.inside id (by omega) segment' hs' patch hp data hd
  rest id hi := by
    rw [hm.others id (by omega), h.rest id (by omega)]

theorem LinkedUpTo.size_eq {count : Nat} {before after : Array Bytes}
    (h : LinkedUpTo image addresses imageEnd target count before after)
    (hcount : count ≤ image.segments.length) : after.size = before.size := by
  have hnone : ∀ i : Nat, after[i]? = none ↔ before[i]? = none := by
    intro i
    by_cases hi : i < count
    · rw [h.buffer i hi _ (List.getElem?_eq_getElem (hi.trans_le hcount)), Option.map_eq_none_iff]
    · rw [h.rest i (by omega)]
  have hafter := hnone after.size
  have hbefore := hnone before.size
  simp only [Array.getElem?_eq_none_iff] at hafter hbefore
  omega

/-- A link enters the events of all segments in order and makes the patches of each segment in its
buffer. -/
theorem run_link (h : linker.names.Steady)
    (ho : ∀ segment ∈ image.segments, ∀ reference ∈ segment.references,
      ∀ offset ∈ reference.offsets, 0 ≤ offset)
    (ht : ((image.events addresses).foldl NameTable.bind linker.names).Agrees target)
    (hr : run (link image addresses imageEnd) linker = (.ok (), linker')) :
    linker'.names = (image.events addresses).foldl NameTable.bind linker.names ∧
      LinkedUpTo image addresses imageEnd target image.segments.length linker.buffers
        linker'.buffers := by
  have hinv := Action.forEach_invariant (fun done (linker' : Linker) ↦
    linker'.names = (done.flatMap fun (segment, id) ↦
        segment.events (addresses.getD id 0)).foldl NameTable.bind linker.names ∧
      LinkedUpTo image addresses imageEnd target done.length linker.buffers linker'.buffers) ?_
    ⟨rfl, LinkedUpTo.zero _⟩ hr
  · rwa [List.length_zipIdx] at hinv
  rintro done ⟨segment, id⟩ rest middle after hsplit ⟨hnames, hlinked⟩ hstep
  obtain ⟨hs, rfl⟩ := getElem?_of_zipIdx_eq hsplit
  have hsteady : middle.names.Steady := by
    rw [hnames]
    exact h.foldl _
  rw [Image.events, hsplit, List.flatMap_append, List.foldl_append, ← hnames, List.flatMap_cons,
    List.foldl_append] at ht
  obtain ⟨hn, hm⟩ := run_segment hsteady (ho segment (List.mem_of_getElem? hs)) ht.of_foldl hstep
  rw [hn, hnames, List.flatMap_append, List.foldl_append, List.length_append]
  exact ⟨by simp, hlinked.succ hs hm⟩

end Linker

/-- How the bytes of a segment read when its references are patched with the addresses of a
program. -/
structure Segment.Linked (segment : Segment) (program : Program) (address imageEnd : Int)
    (before after : Bytes) : Prop where
  size : after.size = before.size
  inside : ∀ patch ∈ segment.patches,
    0 ≤ patch.offset ∧ patch.offset + patch.width.bytes ≤ before.size
  patched : ∀ pre patch post, segment.patches = pre ++ patch :: post →
    (∀ later ∈ post, patch.span.Apart later.span) →
    ∃ target, program.address? patch.name = some target ∧
      (after.field patch.span : Int) =
        (match patch.kind with
          | .absolute => target
          | .smallData => target - imageEnd
          | .pcRelative => target - (address + patch.offset)) % 2 ^ (8 * patch.width.bytes)
  untouched : ∀ i, (∀ patch ∈ segment.patches, ¬ patch.span.Covers i) → after[i]? = before[i]?

namespace Segment.Linked

variable {segment : Segment} {program program' : Program} {address imageEnd : Int}
  {before after : Bytes}

/-- Names keep their addresses in whatever extends a program. -/
theorem mono (h : segment.Linked program address imageEnd before after)
    (hl : ∀ name address, program.address? name = some address →
      program'.address? name = some address) :
    segment.Linked program' address imageEnd before after where
  size := h.size
  inside := h.inside
  patched pre patch post hsplit hlater := by
    obtain ⟨target, ht, hfield⟩ := h.patched pre patch post hsplit hlater
    exact ⟨target, hl _ _ ht, hfield⟩
  untouched := h.untouched

theorem eq_of_nil (h : segment.Linked program address imageEnd before after)
    (hr : segment.references = []) : after = before := by
  apply Array.ext_getElem?
  intro i
  refine h.untouched i ?_
  simp [Segment.patches, hr]

end Segment.Linked

/-- What a linker holds after events in a program, of which these are the first ones of their
names. -/
structure Linker.Bound (linker : Linker) (program : Program) (firsts : List Event) : Prop where
  /-- Each of them sets the label of its name, and nothing else in the program changes. -/
  labels : linker.host = .ofProgram { program with
    labels := program.labels ++ (Event.labels linker.defs.base linker.refs.base firsts).toArray }
  kept : ∀ name address, program.address? name = some address →
    linker.host.program.address? name = some address
  defined : ∀ name address, .definition name address ∈ firsts →
    linker.host.program.address? name = some address
  defs : linker.defs.slots.toList = firsts.filterMap Event.valueSlot?
  refs : linker.refs.slots.toList = firsts.filterMap Event.openSlot?
  /-- Absolute names lie at the slots that hold their values. -/
  absolute : ∀ (i : Nat) slot, linker.defs.slots[i]? = some slot → ∃ name value,
    slot = ⟨some name, some value⟩ ∧
      linker.host.program.address? name = some (linker.defs.addressOf i)
  unresolved : ∀ (i : Nat) slot, linker.refs.slots[i]? = some slot → ∃ name,
    slot = ⟨some name, none⟩ ∧ linker.host.program.address? name = some (linker.refs.addressOf i)
  diagnostics : linker.diagnostics.toList = linker.refs.slots.toList.zipIdx.map fun (slot, i) ↦
    ⟨.unresolvedExternal, slot.name.getD "", linker.refs.addressOf i⟩

namespace Linker

variable {linker : Linker} {program : Program} {buffers : List Bytes} {base imageEnd : Int}

theorem steady_start (program : Program) (buffers : List Bytes) (base imageEnd : Int) :
    (start (.ofProgram program) buffers base imageEnd).names.Steady where
  reliable := rfl
  defs := by simp [start, names, SlotStore.empty]
  refs := by simp [start, names, SlotStore.empty]

theorem settled_start (program : Program) (buffers : List Bytes) (base imageEnd : Int) :
    (start (.ofProgram program) buffers base imageEnd).names.Settled where
  defs := .of_nameless (by simp [start, names, SlotStore.empty]) _
  refs := .of_nameless (by simp [start, names, SlotStore.empty]) _
  values := by simp [start, names, SlotStore.empty]

/-- The stores of a link hold the slots that the first events of the names take, and nothing else. -/
theorem stores_start {events : List Event} (h : linker.names =
    events.foldl NameTable.bind (start (.ofProgram program) buffers base imageEnd).names) :
    linker.defs.base = base + 0x10000 ∧ linker.refs.base = imageEnd ∧
      linker.defs.slots.toList = (Event.firsts (fun name ↦ (program.address? name).isSome)
        events).filterMap Event.valueSlot? ∧
      linker.refs.slots.toList = (Event.firsts (fun name ↦ (program.address? name).isSome)
        events).filterMap Event.openSlot? := by
  rw [NameTable.foldl_bind] at h
  set firsts := Event.firsts (fun name ↦ (program.address? name).isSome) events
  have hdefs : linker.defs = (SlotStore.empty defsName (base + defsDistance) true).extend
      (firsts.filterMap Event.valueSlot?) := congrArg NameTable.defs h
  have hrefs : linker.refs = (SlotStore.empty refsName imageEnd false).extend
      (firsts.filterMap Event.openSlot?) := congrArg NameTable.refs h
  refine ⟨congrArg SlotStore.base hdefs, congrArg SlotStore.base hrefs, ?_, ?_⟩
  · rw [hdefs]
    simp [SlotStore.extend, SlotStore.empty]
  · rw [hrefs]
    simp [SlotStore.extend, SlotStore.empty]

theorem bound_start {events : List Event} (h : linker.names =
    events.foldl NameTable.bind (start (.ofProgram program) buffers base imageEnd).names) :
    linker.Bound program (Event.firsts (fun name ↦ (program.address? name).isSome) events) := by
  obtain ⟨hdefsBase, hrefsBase, hdefs, hrefs⟩ := stores_start h
  have hsettled : linker.names.Settled :=
    h ▸ (settled_start program buffers base imageEnd).foldl events
  set table := (start (.ofProgram program) buffers base imageEnd).names with htable
  have hvalue : table.defs.stop = linker.defs.base := (SlotStore.stop_empty ..).trans hdefsBase.symm
  have hopen : table.refs.stop = linker.refs.base := (SlotStore.stop_empty ..).trans hrefsBase.symm
  set firsts := Event.firsts (fun name ↦ (program.address? name).isSome) events with hfirsts
  have hlabel : ∀ label ∈ Event.labels linker.defs.base linker.refs.base firsts,
      linker.host.program.address? label.name = some label.address := by
    intro label hl
    rw [← hvalue, ← hopen] at hl
    have ha := NameTable.address?_label table hl
    rwa [← h] at ha
  have hkept : ∀ name address, program.address? name = some address →
      linker.host.program.address? name = some address := by
    intro name address ha
    have hf := NameTable.address?_foldl table events ha
    rwa [← h] at hf
  rw [NameTable.foldl_bind] at h
  have hhost : linker.host = table.withLabels (Event.labels table.defs.stop table.refs.stop firsts) :=
    congrArg NameTable.host h
  have hdiagnostics : linker.diagnostics = table.diagnostics ++
      (table.refs.unresolved table.refs.length (firsts.filterMap Event.openSlot?)).toArray :=
    congrArg NameTable.diagnostics h
  constructor
  case labels =>
    rw [hhost, hvalue, hopen]
    rfl
  case kept => exact hkept
  case defined =>
    exact fun name address hm ↦ hlabel _ (Event.label_of_definition _ _ hm)
  case defs => exact hdefs
  case refs => exact hrefs
  case absolute =>
    intro i slot hs
    have hm : slot ∈ linker.defs.slots.toList := Array.mem_toList_iff.mpr (Array.mem_of_getElem? hs)
    rw [hdefs] at hm
    obtain ⟨event, -, he⟩ := List.mem_filterMap.mp hm
    obtain ⟨name, value, rfl⟩ := Event.eq_of_valueSlot? he
    exact ⟨name, value, rfl, hsettled.defs _ _ (SlotStore.mem_minted.mpr ⟨i, hs, rfl, rfl⟩) name rfl⟩
  case unresolved =>
    intro i slot hs
    have hm : slot ∈ linker.refs.slots.toList := Array.mem_toList_iff.mpr (Array.mem_of_getElem? hs)
    rw [hrefs] at hm
    obtain ⟨event, -, he⟩ := List.mem_filterMap.mp hm
    obtain ⟨name, rfl⟩ := Event.eq_of_openSlot? he
    exact ⟨name, rfl, hsettled.refs _ _ (SlotStore.mem_minted.mpr ⟨i, hs, rfl, rfl⟩) name rfl⟩
  case diagnostics =>
    rw [hdiagnostics, hrefs]
    simp [htable, names, start, SlotStore.empty, SlotStore.unresolved, SlotStore.length,
      SlotStore.addressOf, hrefsBase]

/-- Made patches read as the addresses that the program has in the end. -/
theorem linked_of_applyAll {segment : Segment} {address : Int} {before : Bytes}
    (hinside : ∀ patch ∈ segment.patches,
      0 ≤ patch.offset ∧ patch.offset + patch.width.bytes ≤ before.size)
    (hknown : ∀ patch ∈ segment.patches, ∃ target, program.address? patch.name = some target) :
    segment.Linked program address imageEnd before
      (Patch.applyAll segment.patches (fun name ↦ (program.address? name).getD 0) address imageEnd
        before) := by
  have hsame : Bytes.SameOutside (segment.patches.map Patch.span) before
      (Patch.applyAll segment.patches (fun name ↦ (program.address? name).getD 0) address imageEnd
        before) := Patch.sameOutside_applyAll segment.patches before
  refine ⟨hsame.1, hinside, fun pre patch post hsplit hlater ↦ ?_, fun i hi ↦ ?_⟩
  · have hm : patch ∈ segment.patches := by simp [hsplit]
    obtain ⟨target, ht⟩ := hknown patch hm
    obtain ⟨ho, hs⟩ := hinside patch hm
    refine ⟨target, ht, ?_⟩
    rw [hsplit, Patch.field_applyAll ho hs hlater, ht, Option.getD_some]
    rfl
  · exact hsame.2 i (by simpa using hi)

variable {linker' : Linker} {image : Image} {addresses : List Int}

/-- The address that a patch used early is the one that its name has in the end. -/
theorem linked_of_run (h : linker.names.Steady)
    (ho : ∀ segment ∈ image.segments, ∀ reference ∈ segment.references,
      ∀ offset ∈ reference.offsets, 0 ≤ offset)
    (hr : run (link image addresses imageEnd) linker = (.ok (), linker')) :
    linker'.names = (image.events addresses).foldl NameTable.bind linker.names ∧
      linker'.buffers.size = linker.buffers.size ∧
      ∀ (id : Nat) (segment : Segment) (address : Int) (before : Bytes),
        image.segments[id]? = some segment → addresses[id]? = some address →
        linker.buffers[id]? = some before →
        ∃ after, linker'.buffers[id]? = some after ∧
          segment.Linked linker'.host.program address imageEnd before after := by
  set table := (image.events addresses).foldl NameTable.bind linker.names with htable
  have hagrees : table.Agrees fun name ↦ (table.address? name).getD 0 := by
    intro name address ha
    dsimp only
    rw [ha, Option.getD_some]
  obtain ⟨hnames, hlinked⟩ := run_link h ho hagrees hr
  rw [← htable] at hnames
  refine ⟨hnames, hlinked.size_eq le_rfl, fun id segment address before hs ha hb ↦ ?_⟩
  have hid : id < image.segments.length := (List.getElem?_eq_some_iff.mp hs).1
  have hbuffer := hlinked.buffer id hid segment hs
  have hinside := hlinked.inside id hid segment hs
  have haddress : addresses.getD id 0 = address := by
    rw [List.getD_eq_getElem?_getD, ha, Option.getD_some]
  rw [hb, haddress, Option.map_some, ← hnames] at hbuffer
  refine ⟨_, hbuffer, linked_of_applyAll (fun patch hp ↦ hinside patch hp before hb) ?_⟩
  intro patch hp
  obtain ⟨reference, hreference, hp⟩ := List.mem_flatMap.mp hp
  obtain ⟨offset, _, rfl⟩ := List.mem_map.mp hp
  have hevent : Event.reference reference.name ∈ image.events addresses := by
    have hzip : (segment, id) ∈ image.segments.zipIdx := List.mem_zipIdx_iff_getElem?.mpr hs
    refine List.mem_flatMap.mpr ⟨_, hzip, List.mem_append_right _ ?_⟩
    exact List.mem_map.mpr ⟨reference, hreference, rfl⟩
  obtain ⟨known, hk⟩ := NameTable.known_foldl linker.names hevent
  rw [← htable, ← hnames] at hk
  exact ⟨known, hk⟩

/-- After a link the first event of each name that was not known has set its address, and the patches
of each segment hold the addresses of their names. -/
theorem link_binds (ho : ∀ segment ∈ image.segments, ∀ reference ∈ segment.references,
      ∀ offset ∈ reference.offsets, 0 ≤ offset)
    (h : (link image addresses imageEnd
      (start (.ofProgram program) buffers base imageEnd)).result = .ok ()) :
    ∃ linker, (link image addresses imageEnd
        (start (.ofProgram program) buffers base imageEnd)).state = linker ∧
      linker.defs.base = base + 0x10000 ∧ linker.refs.base = imageEnd ∧
      linker.Bound program
        (Event.firsts (fun name ↦ (program.address? name).isSome) (image.events addresses)) ∧
      ∀ (id : Nat) (segment : Segment) (address : Int) (before : Bytes),
        image.segments[id]? = some segment → addresses[id]? = some address →
        buffers[id]? = some before →
        ∃ after, linker.buffers[id]? = some after ∧
          segment.Linked linker.host.program address imageEnd before after := by
  obtain ⟨hnames, -, hlinked⟩ := linked_of_run (steady_start program buffers base imageEnd) ho
    (Action.result_eq h)
  obtain ⟨hdefs, hrefs, -, -⟩ := stores_start hnames
  refine ⟨_, rfl, hdefs, hrefs, bound_start hnames, fun id segment address before hs ha hb ↦ ?_⟩
  exact hlinked id segment address before hs ha (by rw [start, List.getElem?_toArray, hb])

/-- A segment that calls the one behind it, an unknown name and a known one. -/
def caller : Segment where
  kind := .code
  name := ""
  size := 12
  data := some (Bytes.zeros 12)
  memFlags := 0
  memAttr := none
  dataOffset := 0
  relocs := []
  definitions := [⟨"_limit", 7, .absolute⟩]
  references := [⟨"_main", .absolute, .long, [0], .ref32, none⟩,
    ⟨"_exit", .absolute, .long, [4], .ref32, none⟩, ⟨"_known", .pcRelative, .short, [8], .ref16, none⟩]
  symbols := []
  debug := []

def callee : Segment :=
  { caller with
    size := 4, data := some (Bytes.zeros 4), definitions := [⟨"_main", 0, .definition⟩], references := [] }

def sampleProgram : Program :=
  { Program.empty with labels := #[⟨0x4000, "_known", Label.imported⟩] }

theorem link_binds_sample :
    let image : Image := ⟨.unit, [caller, callee]⟩
    let before := start (.ofProgram sampleProgram) [Bytes.zeros 12, Bytes.zeros 4] 0x1000 0x1010
    (link image [0x1000, 0x100c] 0x1010 before).result = .ok () ∧
      ∃ linker, (link image [0x1000, 0x100c] 0x1010 before).state = linker ∧
        linker.Bound sampleProgram [.absolute "_limit" 7, .reference "_main", .reference "_exit"] ∧
        ∃ after, linker.buffers[0]? = some after ∧
          caller.Linked linker.host.program 0x1000 0x1010 (Bytes.zeros 12) after := by
  intro image before
  have ho : ∀ segment ∈ image.segments, ∀ reference ∈ segment.references,
      ∀ offset ∈ reference.offsets, 0 ≤ offset := by
    simp [image, caller, callee]
  have h : (link image [0x1000, 0x100c] 0x1010 before).result = .ok () := by decide +kernel
  obtain ⟨linker, hstate, _, _, hbound, hlinked⟩ := link_binds ho h
  obtain ⟨after, hb, hl⟩ := hlinked 0 caller 0x1000 (Bytes.zeros 12) rfl rfl rfl
  exact ⟨h, linker, hstate, hbound, after, hb, hl⟩

end Linker

end Hunks
