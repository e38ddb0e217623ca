import Mathlib
import Hunks.Proofs.Link
import Hunks.Proofs.Link.Minted
import Hunks.Proofs.Load.Stages
import Hunks.Proofs.Memory.Holds
import Hunks.Proofs.Relocation

namespace Hunks

open Hunks.Action (run runs_bind Runs)

/-- How a segment lies in memory at its address: its bytes are those of its buffer, and all of a BSS
segment is there without a content. -/
structure Segment.Loaded (segment : Segment) (host : Host) (address : Int) (buffer : Bytes) :
    Prop where
  size : buffer.size = segment.size
  bytes : segment.kind ≠ .bss → segment.size ≠ 0 →
    run (Host.readBytes address segment.size) host = (.ok buffer, host)
  blank : segment.kind = .bss → ∀ place, address ≤ place → place < address + segment.size →
    run (Host.contains place) host = (.ok true, host) ∧
      ∃ region, run (Host.readBytes place 1) host = (.error (.uninitialized place region), host)

namespace Image

variable {image : Image} {base : Int} {buffers : List Bytes} {data : Bytes} {hunks : List Hunk}

/-- Each segment is linked at its address, from its first buffer to its second one. -/
structure Linked (image : Image) (program : Program) (base imageEnd : Int)
    (before after : List Bytes) : Prop where
  length : after.length = image.segments.length
  segment : ∀ (id : Nat) (segment : Segment), image.segments[id]? = some segment →
    ∃ address buffer buffer', (image.layout base 0)[id]? = some address ∧
      before[id]? = some buffer ∧ after[id]? = some buffer' ∧
      segment.Linked program address imageEnd buffer buffer'

variable {program program' : Program} {imageEnd : Int} {before after : List Bytes} {memory : Memory}

theorem Linked.mono (h : image.Linked program base imageEnd before after)
    (hl : ∀ name address, program.address? name = some address →
      program'.address? name = some address) :
    image.Linked program' base imageEnd before after where
  length := h.length
  segment id segment hs := by
    obtain ⟨address, buffer, buffer', ha, hb, hb', hlinked⟩ := h.segment id segment hs
    exact ⟨address, buffer, buffer', ha, hb, hb', hlinked.mono hl⟩

theorem Linked.filled (h : image.Linked program base imageEnd before after)
    (hb : image.Filled before) : image.Filled after where
  length := h.length
  size id segment buffer hs hbuffer := by
    obtain ⟨address, first, second, -, hfirst, hsecond, hlinked⟩ := h.segment id segment hs
    cases hbuffer.symm.trans hsecond
    rw [hlinked.size, hb.size id segment first hs hfirst]

theorem Linked.eq_of_nil (h : image.Linked program base imageEnd before after) {id : Nat}
    {segment : Segment} (hs : image.segments[id]? = some segment)
    (hr : segment.references = []) : after[id]? = before[id]? := by
  obtain ⟨address, first, second, -, hfirst, hsecond, hlinked⟩ := h.segment id segment hs
  rw [hsecond, hfirst, hlinked.eq_of_nil hr]

/-- What an image that was read occupies, it occupies in whole long words. -/
theorem Placed.longs (hp : image.Placed base buffers memory) (hi : IsRead data hunks image) :
    memory.Longs := by
  intro region hm
  obtain ⟨id, segment, address, content, hs, -, -, -, rfl⟩ := (hp.mem_iff region).mp hm
  obtain ⟨n, hn⟩ := hi.long_size (List.mem_of_getElem? hs)
  refine ⟨n, ?_⟩
  rw [Segment.size_region, hn]
  rfl

/-- A segment that was placed stays as it is in whatever extends the program. -/
theorem Placed.loaded {host : Host} {id : Nat} {segment : Segment} {address : Int} {buffer : Bytes}
    (hp : image.Placed base buffers program.memory) (hf : image.Filled buffers)
    (he : host.Extends program) (hs : image.segments[id]? = some segment)
    (ha : (image.layout base 0)[id]? = some address) (hb : buffers[id]? = some buffer) :
    segment.Loaded host address buffer := by
  have hsize := hf.size id segment buffer hs hb
  have hmem : segment.size ≠ 0 → segment.region id address buffer ∈ program.memory := fun hpos ↦
    (hp.mem_iff _).mpr ⟨id, (places_iff hs ha hb).mpr ⟨hpos, rfl⟩⟩
  refine ⟨hsize, fun hk hpos ↦ ?_, fun hk place hl hu ↦ ?_⟩
  · have hread := he.memory.read he.sound hp.sound (hmem hpos) (Segment.data_region id address hk hsize)
    rw [Segment.start_region, Segment.size_region] at hread
    rw [Host.readBytes, Host.run_ask he.reliable, hread]
  · have hp' : (segment.region id address buffer).start ≤ place ∧
        place < (segment.region id address buffer).stop := by
      rw [Segment.start_region, Segment.stop_region]
      exact ⟨hl, hu⟩
    obtain ⟨region, hat, hext⟩ := he.memory.regionAt? he.sound (hmem (by omega)) hp'
    have hd : region.data = none := hext.blank (Segment.data_region_bss hk)
    rw [Host.contains, Host.run_ask he.reliable, Memory.contains_of_regionAt? hat]
    refine ⟨rfl, region, ?_⟩
    rw [Host.readBytes, Host.run_ask he.reliable, Memory.read_blank hat hd]

end Image

namespace Loading

variable {ρ : Type} {loading loading' : Loading ρ} {loader : Loader ρ} {data : Bytes}
  {result : LoadResult}

/-- What the link of a load knows about names at its start. -/
def table (loading : Loading ρ) (base imageEnd : Int) : NameTable where
  host := loading.host
  defs := (SlotStore.empty Linker.defsName (base + Linker.defsDistance) true).behind
    loading.host.program.memory
  refs := (SlotStore.empty Linker.refsName imageEnd false).behind loading.host.program.memory
  diagnostics := #[]

/-- The slots of earlier loads count as slots without names. -/
theorem nameless_table (loading : Loading ρ) (base imageEnd : Int) :
    (loading.table base imageEnd).defs.Nameless ∧ (loading.table base imageEnd).refs.Nameless :=
  ⟨SlotStore.nameless_behind rfl _, SlotStore.nameless_behind rfl _⟩

theorem steady_table (hrel : loading.host.Reliable) (base imageEnd : Int) :
    (loading.table base imageEnd).Steady := by
  obtain ⟨hdefs, hrefs⟩ := nameless_table loading base imageEnd
  refine ⟨hrel, fun slot hm name hn ↦ ?_, fun slot hm name hn ↦ ?_⟩
  · rw [hdefs slot hm] at hn
    cases hn
  · rw [hrefs slot hm] at hn
    cases hn

theorem settled_table (loading : Loading ρ) (base imageEnd : Int) :
    (loading.table base imageEnd).Settled := by
  obtain ⟨hdefs, hrefs⟩ := nameless_table loading base imageEnd
  refine ⟨.of_nameless hdefs _, .of_nameless hrefs _, fun slot hm hsome ↦ ?_⟩
  rw [hdefs slot hm] at hsome
  cases hsome

end Loading

/-- A linker that went on from a program: it only added labels, and its slots come behind those that
the program has. -/
structure Linker.Continues (linker : Linker) (program : Program) : Prop where
  reliable : linker.host.Reliable
  memory : linker.host.program.memory = program.memory
  labels : ∀ name address, program.address? name = some address →
    linker.host.program.address? name = some address
  defsName : linker.defs.name = Linker.defsName
  refsName : linker.refs.name = Linker.refsName
  initialized : linker.defs.initialized = true
  uninitialized : linker.refs.initialized = false
  defs : linker.defs.Reserved program.memory
  refs : linker.refs.Reserved program.memory
  settled : linker.names.Settled

namespace Loading

variable {ρ : Type} {loading loading' : Loading ρ} {loader : Loader ρ} {data : Bytes}
  {result : LoadResult}

theorem continues_of_names {linker : Linker} {base imageEnd : Int} {events : List Event}
    (hrel : loading.host.Reliable) (hlongs : loading.host.program.memory.Longs)
    (h : linker.names = events.foldl NameTable.bind (loading.table base imageEnd)) :
    linker.Continues loading.host.program := by
  have hsettled : linker.names.Settled := h ▸ (settled_table loading base imageEnd).foldl events
  have hlabels : ∀ name address, loading.host.program.address? name = some address →
      linker.names.address? name = some address := by
    intro name address ha
    rw [h]
    exact NameTable.address?_foldl (loading.table base imageEnd) events ha
  rw [NameTable.foldl_bind] at h
  have hhost : linker.host = _ := congrArg NameTable.host h
  have hdefs : linker.defs = _ := congrArg NameTable.defs h
  have hrefs : linker.refs = _ := congrArg NameTable.refs h
  constructor
  case reliable =>
    rw [hhost]
    exact hrel
  case memory =>
    rw [hhost]
    rfl
  case labels => exact hlabels
  case defsName =>
    rw [hdefs]
    exact SlotStore.name_behind ..
  case refsName =>
    rw [hrefs]
    exact SlotStore.name_behind ..
  case initialized =>
    rw [hdefs]
    exact SlotStore.initialized_behind ..
  case uninitialized =>
    rw [hrefs]
    exact SlotStore.initialized_behind ..
  case defs =>
    rw [hdefs]
    exact SlotStore.reserved_behind rfl hlongs _
  case refs =>
    rw [hrefs]
    exact SlotStore.reserved_behind rfl hlongs _
  case settled => exact hsettled

/-- A link in a load sees the slots of earlier loads, and changes labels only. -/
theorem runLinker_linked {image : Image} {buffers : List Bytes} {base imageEnd : Int}
    {linker : Linker} (hrel : loading.host.Reliable) (hlongs : loading.host.program.memory.Longs)
    (ho : ∀ segment ∈ image.segments, ∀ reference ∈ segment.references,
      ∀ offset ∈ reference.offsets, 0 ≤ offset)
    (hf : image.Filled buffers)
    (hr : run (runLinker image (image.layout base 0) buffers base imageEnd) loading =
      (.ok linker, loading')) :
    loading' = { loading with host := linker.host } ∧ linker.Continues loading.host.program ∧
      image.Linked linker.host.program base imageEnd buffers linker.buffers.toList := by
  rw [runLinker, Action.run_bind, Action.run_get] at hr
  dsimp only at hr
  rw [Action.run_bind_ok (run_reserveSlots hrel _), Action.run_bind_ok (run_reserveSlots hrel _)] at hr
  obtain ⟨last, hwork, rfl⟩ := Action.run_focus_eq_ok.mp hr
  obtain ⟨_, middle, hlink, hget⟩ := Action.run_bind_eq_ok.mp (Action.run_mapError_eq_ok.mp hwork)
  cases hget
  obtain ⟨hnames, hbuffers, hlinked⟩ :=
    Linker.linked_of_run (by exact steady_table hrel base imageEnd) ho hlink
  refine ⟨rfl, continues_of_names hrel hlongs hnames, ?_, fun id segment hs ↦ ?_⟩
  · rw [Array.length_toList, hbuffers]
    exact hf.length
  · have hid := (List.getElem?_eq_some_iff.mp hs).1
    have ha : id < (image.layout base 0).length := by rwa [Image.length_layout]
    have hb : id < buffers.length := by rwa [hf.length]
    obtain ⟨after, hafter, hl⟩ := hlinked id segment _ buffers[id] hs (List.getElem?_eq_getElem ha)
      (by rw [Linker.start, List.getElem?_toArray, List.getElem?_eq_getElem hb])
    refine ⟨_, _, after, List.getElem?_eq_getElem ha, List.getElem?_eq_getElem hb, ?_, hl⟩
    rwa [Array.getElem?_toList]

/-- Kickstart images and libraries are neither programs nor units. -/
theorem load_eq_loadFile {Q : Report → Prop} (hr : Runs Q (load loader data) loading result loading')
    (hk : result.kind = .program ∨ result.kind = .unit) :
    ∃ file, (File.read data 0 none none).result = .ok file ∧
      Runs Q (loadFile loader file) loading result loading' := by
  rw [load, runs_bind] at hr
  obtain ⟨spec, _, ⟨hspec, -⟩, hr⟩ := hr
  rw [Action.run_ofExcept, Prod.mk.injEq] at hspec
  obtain ⟨-, rfl⟩ := hspec
  cases spec with
  | none => cases hr.1
  | some spec =>
    cases spec with
    | kickstart base =>
      obtain ⟨_, _, -, hr⟩ := Action.run_bind_eq_ok.mp hr.1
      obtain ⟨_, _, -, hr⟩ := Action.run_bind_eq_ok.mp hr
      obtain ⟨_, _, -, hr⟩ := Action.run_bind_eq_ok.mp hr
      obtain ⟨_, _, -, hr⟩ := Action.run_bind_eq_ok.mp hr
      obtain ⟨_, _, -, hr⟩ := Action.run_bind_eq_ok.mp hr
      cases hr
      simp at hk
    | hunks =>
      obtain ⟨⟨file, _⟩, _, ⟨hdecode, -⟩, hr⟩ := runs_bind.mp hr
      obtain ⟨hread, rfl⟩ := Action.run_within_eq_ok.mp hdecode
      refine ⟨file, congrArg Prod.fst (Action.run_mapError_eq_ok.mp hread), ?_⟩
      dsimp only at hr
      split at hr <;> rename_i hlibrary
      · have hr := hr.1
        rw [Action.run_bind_ok (Action.run_info ..)] at hr
        cases hr
        simp [emptyResult, hlibrary] at hk
      · exact hr

/-- The load of a file into an empty program leaves all segments at their addresses as they were linked:
the stages behind the writing only extend the program that it made. -/
theorem Stages.kept {Q : Report → Prop} {file : File} {image : Image} {relocated : List Bytes}
    {linker : Linker} {start created linked written defined referred : Loading ρ} {hunks : List Hunk}
    (h : Stages Q loader file image relocated linker start created linked written defined referred
      loading result)
    (hstart : start.host = .ofProgram .empty) (hi : image.IsRead data hunks) :
    created.host.Reliable ∧ referred.host.Reliable ∧ image.Filled relocated ∧
      image.Linked linker.host.program loader.base (imageEnd image loader.base result.addresses)
        relocated result.buffers ∧
      ∃ memory, image.Placed loader.base result.buffers memory ∧
        loading.host.Extends { linker.host.program with memory } := by
  obtain ⟨-, haddresses, hbuffers⟩ := h.answer
  have hbefore : image.Filled relocated := hi.filled (congrArg Prod.fst h.relocation)
  obtain ⟨hcreated, hplaced⟩ := createSegments_placed hbefore
    (by rw [hstart]; exact Host.reliable_ofProgram _) (by rw [hstart]; rfl) h.creation.1
  obtain ⟨rfl, hlinker, hpatched⟩ := runLinker_linked hcreated (hplaced.longs hi)
    (fun _ hm _ hr _ ho ↦ hi.offset_nonneg hm hr ho) hbefore h.linkage
  have hplaced' : image.Placed loader.base relocated linker.host.program.memory := by
    rwa [hlinker.memory]
  obtain ⟨memory, rfl, hshape, hwritten⟩ := writeBacks_placed hbefore (hpatched.filled hbefore)
    (fun _ _ hs hreferences ↦ hpatched.eq_of_nil hs hreferences) hlinker.reliable hplaced' h.writing
  have hsound : memory.Sound := hwritten.sound
  set program := (linker.host.withMemory memory).program
  have hextends : Extends program (withMemory { created with host := linker.host } memory) :=
    Host.Extends.refl hlinker.reliable hsound
  have hdefined := materialize_extends hsound hextends loader
    (fun _ ↦ hlinker.defs.of_shape (hshape.trans (congrArg _ hlinker.memory))) h.definition.1
  have hreferred := materialize_extends hsound hdefined loader
    (fun hinit ↦ absurd hinit (by rw [hlinker.uninitialized]; exact Bool.false_ne_true)) h.reference.1
  rw [haddresses, hbuffers]
  exact ⟨hcreated, hreferred.reliable, hbefore, hpatched, memory, hwritten,
    h.rest (Host.extends_stable program) hreferred⟩

/-- The load of a file into an empty program links all segments and leaves them at their addresses. -/
theorem Stages.extends {Q : Report → Prop} {file : File} {image : Image} {relocated : List Bytes}
    {linker : Linker} {start created linked written defined referred : Loading ρ} {hunks : List Hunk}
    (h : Stages Q loader file image relocated linker start created linked written defined referred
      loading result)
    (hstart : start.host = .ofProgram .empty) (hi : image.IsRead data hunks) :
    ∃ program, image.Placed loader.base result.buffers program.memory ∧
      loading.host.Extends program ∧
      image.Linked program loader.base (imageEnd image loader.base result.addresses) relocated
        result.buffers := by
  obtain ⟨-, -, -, hlinked, memory, hplaced, hextends⟩ := h.kept hstart hi
  -- the names of a program do not depend on its memory
  exact ⟨_, hplaced, hextends, hlinked.mono fun _ _ hname ↦ hname⟩

/-- After a load into an empty program each segment lies at its address as it was relocated and
linked, whatever the file holds besides, and it reads the same in the blob of all buffers. -/
theorem load_segments {registry : Option Registry} {lookups : ρ}
    (hr : run (load loader data) ⟨.ofProgram .empty, registry, lookups⟩ = (.ok result, loading))
    (hk : result.kind = .program ∨ result.kind = .unit) :
    ∃ hunks image relocated blob, image.IsRead data hunks ∧ result.image = some image ∧
      result.addresses = image.layout loader.base 0 ∧
      (image.relocate result.addresses ()).result = .ok relocated ∧
      result.buffers.length = image.segments.length ∧ Image.join? 0 result.buffers = some blob ∧
      ∀ (id : Nat) (segment : Segment), image.segments[id]? = some segment →
        ∃ address before buffer, result.addresses[id]? = some address ∧
          relocated[id]? = some before ∧ result.buffers[id]? = some buffer ∧
          segment.Linked loading.host.program address
            (imageEnd image loader.base result.addresses) before buffer ∧
          segment.Loaded loading.host address buffer ∧ loader.base ≤ address ∧
          blob.extract (address - loader.base).toNat
            ((address - loader.base).toNat + segment.size) = buffer := by
  obtain ⟨file, hread, hr⟩ := load_eq_loadFile (.of_run hr) hk
  obtain ⟨image, relocated, linker, created, linked, written, defined, referred, hstages⟩ :=
    loadFile_stages hr
  obtain ⟨himage, haddresses, -⟩ := hstages.answer
  obtain ⟨hunks, hhunks, -, -⟩ := Image.ofFile_builtOf hstages.built
  have hi : image.IsRead data hunks :=
    ⟨file, hread, congrArg Prod.fst hhunks, congrArg Prod.fst hstages.built⟩
  have hrelocate : (image.relocate result.addresses ()).result = .ok relocated := by
    rw [haddresses]
    exact congrArg Prod.fst hstages.relocation
  obtain ⟨program, hplaced, hextends, hlinked⟩ := hstages.extends rfl hi
  have hfilled : image.Filled result.buffers := hlinked.filled (hi.filled hrelocate)
  obtain ⟨blob, hblob⟩ : ∃ blob, Image.join? 0 result.buffers = some blob := ⟨_, if_neg (by simp)⟩
  refine ⟨hunks, image, relocated, blob, hi, himage, haddresses, hrelocate, hfilled.length, hblob,
    fun id segment hs ↦ ?_⟩
  obtain ⟨address, before, buffer, ha, hb, hbuffer, hl⟩ :=
    (hlinked.mono hextends.labels).segment id segment hs
  have hloaded := hplaced.loaded hfilled hextends hs ha hbuffer
  have hle : loader.base ≤ address := by
    rw [Image.layoutFrom_eq_some ha, mul_zero, Int.add_zero]
    omega
  refine ⟨address, before, buffer, by rwa [haddresses], hb, hbuffer, hl, hloaded, hle, ?_⟩
  rw [← hloaded.size]
  exact Image.extract_join? hfilled.map_size hbuffer ha hblob

/-- A unit with a BSS hunk in front of code that is called like the region of absolute values, defines
such a value and refers to a name that nobody defines. -/
def sample : Bytes :=
  ([0x3e7, 0, 0x3eb, 1, 0x3f2, 0x3e8, 1, 0x44454653, 0x3e9, 2, 0x4e714e75, 0, 0x3ef, 0x02000001,
    0x6c696d00, 7, 0x81000001, 0x65787400, 1, 4, 0, 0x3f2].flatMap (Bytes.ofNat 4)).toArray

def sampleLoader : Loader Unit where
  types := []
  base := ImageBase.default
  resolver := none

theorem load_segments_sample : ∃ result loading image segment,
    run (load sampleLoader sample) ⟨.ofProgram .empty, none, ()⟩ = (.ok result, loading) ∧
      result.kind = .unit ∧ result.image = some image ∧ image.segments[1]? = some segment ∧
      segment.Loaded loading.host 0x21f004 #[0x4e, 0x71, 0x4e, 0x75, 0, 0x21, 0xf0, 0x0c] := by
  have hrun : (load sampleLoader sample ⟨.ofProgram .empty, none, ()⟩).result.map
      (fun result ↦ (result.kind, result.addresses, result.buffers)) =
      .ok (.unit, [0x21f000, 0x21f004],
        [#[0, 0, 0, 0], #[0x4e, 0x71, 0x4e, 0x75, 0, 0x21, 0xf0, 0x0c]]) := by decide +kernel
  cases hresult : (load sampleLoader sample ⟨.ofProgram .empty, none, ()⟩).result with
  | error e =>
    rw [hresult] at hrun
    cases hrun
  | ok result =>
    rw [hresult] at hrun
    simp only [Except.map, Except.ok.injEq, Prod.mk.injEq] at hrun
    obtain ⟨hkind, haddresses, hbuffers⟩ := hrun
    obtain ⟨_, image, _, _, _, himage, _, _, hlength, _, h⟩ :=
      load_segments (Action.result_eq hresult) (Or.inr hkind)
    have hid : 1 < image.segments.length := by
      rw [← hlength, hbuffers]
      decide
    obtain ⟨_, _, _, ha, _, hb, _, hloaded, _⟩ := h 1 _ (List.getElem?_eq_getElem hid)
    rw [haddresses] at ha
    rw [hbuffers] at hb
    cases ha
    cases hb
    exact ⟨result, _, image, _, Action.result_eq hresult, hkind, himage,
      List.getElem?_eq_getElem hid, hloaded⟩

end Loading

end Hunks
