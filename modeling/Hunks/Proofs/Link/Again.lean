import Mathlib
import Hunks.Proofs.Link.Events
import Hunks.Proofs.Replay

namespace Hunks

open Hunks.Action (run Replays)

/-- Buffers of which each byte is that of the buffers `now` or that of the buffers `last`. -/
structure Between (last now again : Array Bytes) : Prop where
  sizes : again.map Array.size = now.map Array.size
  byte : ∀ id i : Nat, (again.getD id #[])[i]? = (now.getD id #[])[i]? ∨
    (again.getD id #[])[i]? = (last.getD id #[])[i]?

namespace Between

variable {last now again : Array Bytes}

/-- Equal bytes at one place of both leave only bytes in between. -/
theorem modify (h : Between last now again) {id start : Nat} {bytes : List UInt8}
    (hs : start + bytes.length ≤ (now.getD id #[]).size) :
    Between last (now.modify id (Bytes.overwrite · start bytes))
      (again.modify id (Bytes.overwrite · start bytes)) where
  sizes := by
    rw [Bytes.sizes_modify, Bytes.sizes_modify, h.sizes]
  byte other i := by
    rw [Bytes.getD_modify, Bytes.getD_modify]
    by_cases ho : id = other
    · subst ho
      rw [if_pos rfl, if_pos rfl]
      by_cases hi : start ≤ i ∧ i < start + bytes.length
      · obtain ⟨n, rfl⟩ := Nat.exists_eq_add_of_le hi.1
        have hsize := Bytes.size_getD h.sizes id
        rw [Bytes.overwrite_inside _ (by omega) (by omega),
          Bytes.overwrite_inside _ (by omega) (by omega)]
        exact Or.inl rfl
      · rw [Bytes.overwrite_outside _ (by omega), Bytes.overwrite_outside _ (by omega)]
        exact h.byte id i
    · rw [if_neg ho, if_neg ho]
      exact h.byte other i

theorem eq_last (h : Between last last again) : again = last := by
  have hlength : again.size = last.size := by
    have hs := congrArg Array.size h.sizes
    rwa [Array.size_map, Array.size_map] at hs
  refine Array.ext hlength fun id hid hid' ↦ Array.ext_getElem? fun i ↦ ?_
  have hbyte := (h.byte id i).elim (fun he ↦ he) fun he ↦ he
  rwa [Array.getD_eq_getD_getElem?, Array.getD_eq_getD_getElem?, Array.getElem?_eq_getElem hid,
    Array.getElem?_eq_getElem hid'] at hbyte

end Between

namespace Linker

variable {linker linker' again : Linker} {image : Image} {addresses : List Int} {imageEnd : Int}

/-- The linker of a first run, whose buffers keep their sizes. -/
structure Running (before : Array Bytes) (linker : Linker) : Prop where
  steady : linker.names.Steady
  sizes : linker.buffers.map Array.size = before.map Array.size

/-- No name has another address than in the program that the second run finds. -/
def KnownTo (again linker : Linker) : Prop :=
  ∀ name address, linker.names.address? name = some address →
    again.names.address? name = some address

/-- The second run has come as far as the first one. It has entered nothing, and found the entry
points of the first run. -/
structure Follows (again linker linker' : Linker) : Prop where
  names : linker'.names = again.names
  entryPoints : linker'.entryPoints = linker.entryPoints
  buffers : Between again.buffers linker.buffers linker'.buffers

variable {before : Array Bytes}

/-- What asks for the address of a name, and enters an event if there is none, gets the same address
again from a program that knows all names. -/
theorem replays_event (ha : again.names.Steady) {x : Link Int} (event : Event)
    (hx : ∀ linker : Linker, linker.names.Steady → ∃ address,
      run x linker = (.ok address, linker.bind event) ∧
        (linker.bind event).names.address? event.name = some address) :
    x.Replays (Running before) (KnownTo again) (Follows again) := by
  intro linker address linker' hrunning hr
  obtain ⟨first, hfirst, hknown⟩ := hx linker hrunning.steady
  rw [hfirst] at hr
  cases hr
  refine ⟨⟨hrunning.steady.bind event, hrunning.sizes⟩, fun hlast ↦
    ⟨fun name address hn ↦ ?_, fun second h ↦ ?_⟩⟩
  · exact hlast name address (NameTable.address?_foldl linker.names [event] hn)
  · have hsecond : second.names.address? event.name = some address := by
      rw [h.names]
      exact hlast _ _ hknown
    obtain ⟨found, hrun, hagain⟩ := hx second (by rwa [h.names])
    rw [bind_known event hsecond] at hrun hagain
    cases hsecond.symm.trans hagain
    exact ⟨second, hrun, h.names, h.entryPoints, h.buffers⟩

theorem replays_addDefinition (ha : again.names.Steady) (address : Int) (definition : Definition) :
    (addDefinition address definition).Replays (Running before) (KnownTo again) (Follows again) := by
  rw [addDefinition]
  split
  · refine .bind (replays_event ha (.absolute definition.name definition.offset) fun linker h ↦ ?_)
      fun _ ↦ .pure _
    exact run_defineAbsolute h definition.name definition.offset
  · refine .bind (replays_event ha (.definition definition.name (address + definition.offset))
      fun linker h ↦ ?_) fun target ↦ ?_
    · exact run_define h definition.name (address + definition.offset)
    · intro linker _ linker' hrunning hr
      rw [Action.run_bind, Action.run_get] at hr
      dsimp only at hr
      split at hr <;> rename_i hentry
      · cases hr
        refine ⟨⟨hrunning.steady, hrunning.sizes⟩, fun hlast ↦ ⟨hlast, fun second h ↦ ?_⟩⟩
        rw [← h.entryPoints] at hentry
        refine ⟨{ second with entryPoints := second.entryPoints.push target }, ?_, h.names,
          congrArg (·.push target) h.entryPoints, h.buffers⟩
        rw [Action.run_bind, Action.run_get]
        dsimp only
        rw [if_pos hentry]
        rfl
      · cases hr
        refine ⟨hrunning, fun hlast ↦ ⟨hlast, fun second h ↦ ⟨second, ?_, h⟩⟩⟩
        rw [← h.entryPoints] at hentry
        rw [Action.run_bind, Action.run_get]
        dsimp only
        rw [if_neg hentry]
        rfl

/-- A patch writes the same bytes at the same place again. -/
theorem replays_patch (address : Int) (id : Nat) (reference : Reference) (target offset : Int) :
    (patch imageEnd address id reference target offset).Replays (Running before) (KnownTo again)
      (Follows again) := by
  intro linker _ linker' hrunning hr
  obtain ⟨start, hplace, rfl⟩ := patch_eq_ok.mp hr
  refine ⟨⟨hrunning.steady, ?_⟩, fun hlast ↦ ⟨hlast, fun second h ↦ ?_⟩⟩
  · exact (Bytes.sizes_modify ..).trans hrunning.sizes
  · have hsecond : Bytes.place? (second.buffers.getD id #[]) offset reference.width.bytes =
        some start := by
      rw [Bytes.place?_congr (Bytes.size_getD h.buffers.sizes id), hplace]
    refine ⟨_, patch_eq_ok.mpr ⟨start, hsecond, rfl⟩, h.names, h.entryPoints, h.buffers.modify ?_⟩
    rw [Bytes.length_ofInt]
    exact (Bytes.place?_le hplace).1

theorem replays_link (before : Array Bytes) (ha : again.names.Steady) (image : Image) (addresses : List Int)
    (imageEnd : Int) :
    (link image addresses imageEnd).Replays (Running before) (KnownTo again) (Follows again) := by
  refine .forEach fun entry _ ↦ .bind (.forEach fun definition _ ↦ ?_) fun _ ↦
    .forEach fun reference _ ↦ ?_
  · exact replays_addDefinition ha _ definition
  · refine .bind (replays_event ha (.reference reference.name) fun linker h ↦ ?_) fun target ↦
      .forEach fun offset _ ↦ replays_patch _ _ reference target offset
    exact run_resolve h reference.name

/-- A link from a program that knows all names as another link of the same image ended up knowing them
gives the same buffers and entry points, and changes nothing else. -/
theorem link_known {second : Linker} (h : linker.names.Steady)
    (hr : run (link image addresses imageEnd) linker = (.ok (), linker')) (hsecond : second.names.Steady)
    (hknown : KnownTo second linker') (hpoints : second.entryPoints = linker.entryPoints)
    (hbuffers : Between linker'.buffers linker.buffers second.buffers) :
    run (link image addresses imageEnd) second =
      (.ok (), { second with entryPoints := linker'.entryPoints, buffers := linker'.buffers }) := by
  have hagain : ({ second with buffers := linker'.buffers } : Linker).names.Steady := hsecond
  obtain ⟨-, hreplay⟩ := replays_link linker.buffers hagain image addresses imageEnd _ _ _ ⟨h, rfl⟩ hr
  obtain ⟨-, hfollow⟩ := hreplay hknown
  obtain ⟨last, hrun, hnames, hlast, hbetween⟩ := hfollow second ⟨rfl, hpoints, hbuffers⟩
  rw [hrun, ← hlast, ← hbetween.eq_last]
  cases last
  cases hnames
  rfl

variable {program : Program} {buffers : List Bytes} {base : Int}

theorem steady_again (h : linker.names.Steady) (buffers : List Bytes) (base imageEnd : Int) :
    (start linker.host buffers base imageEnd).names.Steady where
  reliable := h.reliable
  defs := by simp [start, names, SlotStore.empty]
  refs := by simp [start, names, SlotStore.empty]

/-- A second link of the same image into the buffers of the first one finds all names known: it takes
no slot, sets no label, reports nothing and writes the bytes that are there already. -/
theorem link_again (h : (link image addresses imageEnd
      (start (.ofProgram program) buffers base imageEnd)).result = .ok ()) :
    ∃ linker again, (link image addresses imageEnd
        (start (.ofProgram program) buffers base imageEnd)).state = linker ∧
      run (link image addresses imageEnd) (start linker.host linker.buffers.toList base imageEnd) =
        (.ok (), again) ∧
      again.host = linker.host ∧ again.buffers = linker.buffers ∧
      again.defs.slots = #[] ∧ again.refs.slots = #[] ∧ again.diagnostics = #[] ∧
      again.entryPoints = linker.entryPoints := by
  obtain ⟨linker, hstate⟩ : ∃ linker, (link image addresses imageEnd
      (start (.ofProgram program) buffers base imageEnd)).state = linker := ⟨_, rfl⟩
  have hr := Action.result_eq h
  rw [hstate] at hr
  have hstart := steady_start program buffers base imageEnd
  have hlast : linker.names.Steady := by
    rw [link_names hstart hr]
    exact hstart.foldl _
  have hsizes : linker.buffers.map Array.size = buffers.toArray.map Array.size :=
    (replays_link buffers.toArray hstart image addresses imageEnd _ _ _ ⟨hstart, rfl⟩ hr).1.sizes
  -- The program of the second run is that of the last state of the first one.
  have hrun := link_known hstart hr (steady_again hlast linker.buffers.toList base imageEnd)
    (fun _ _ hn ↦ hn) rfl ⟨by simpa [start] using hsizes, fun _ _ ↦ Or.inr rfl⟩
  exact ⟨linker, _, hstate, hrun, rfl, rfl, rfl, rfl, rfl, rfl⟩

theorem link_again_sample :
    let image : Image := ⟨.unit, [caller, callee]⟩
    let before := start (.ofProgram sampleProgram) [Bytes.zeros 12, Bytes.zeros 4] 0x1000 0x1010
    (link image [0x1000, 0x100c] 0x1010 before).result = .ok () ∧
      ∃ linker again, (link image [0x1000, 0x100c] 0x1010 before).state = linker ∧
        run (link image [0x1000, 0x100c] 0x1010)
          (start linker.host linker.buffers.toList 0x1000 0x1010) = (.ok (), again) ∧
        again.buffers = linker.buffers := by
  intro image before
  have h : (link image [0x1000, 0x100c] 0x1010 before).result = .ok () := by decide +kernel
  obtain ⟨linker, again, hstate, hrun, -, hbuffers, -⟩ := link_again h
  exact ⟨h, linker, again, hstate, hrun, hbuffers⟩

end Linker

end Hunks
