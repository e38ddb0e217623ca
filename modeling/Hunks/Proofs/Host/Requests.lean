import Mathlib
import Hunks.Proofs.Host
import Hunks.Proofs.Memory.Cells

namespace Hunks

open Hunks.Action (run)

/-- A change of memory that a program is asked for. -/
inductive Request where
  | create (plan : Region.Plan)
  | write (address : Int) (bytes : Bytes)
  | join (first second : Region)
  | convert (region : Region) (fill : Int)

namespace Request

variable {memory memory' : Memory} {request : Request} {host : Host}

def perform : Request → Host.Access Unit
  | create plan => do let _ ← Host.createBlock plan
  | write address bytes => Host.setBytes address bytes
  | join first second => do let _ ← Host.join (some first) (some second)
  | convert region fill => do let _ ← Host.convert (some region) fill

/-- A new region is planned by its data or by its size, and other regions are those of the memory. -/
def Proper (memory : Memory) : Request → Prop
  | create plan => plan.data = none ∨ plan.size = none
  | write _ _ => True
  | join first second => first ∈ memory ∧ second ∈ memory
  | convert region _ => region ∈ memory

/-- What a request is to make of a map of cells. -/
def cells (cell? : Int → Option Cell) (place : Int) : Request → Option Cell
  | create plan =>
    match plan.data, plan.size with
    | some data, _ =>
      if plan.address ≤ place ∧ place < plan.address + data.size then
        data[(place - plan.address).toNat]?.map .byte
      else cell? place
    | none, some size =>
      if plan.address ≤ place ∧ place < plan.address + size then
        some (if plan.initialized then .byte 0 else .uninitialized)
      else cell? place
    | none, none => cell? place
  | write address bytes =>
    if address ≤ place ∧ place < address + bytes.size then
      bytes[(place - address).toNat]?.map .byte
    else cell? place
  | join _ _ => cell? place
  | convert region fill =>
    if (region.start ≤ place ∧ place < region.stop) ∧ cell? place = some .uninitialized then
      some (.byte fill.toNat.toUInt8)
    else cell? place

/-- The memory that a request leaves. -/
def apply (memory : Memory) : Request → Except AccessError Memory
  | create plan => (memory.create plan).map Prod.snd
  | write address bytes => memory.write address bytes
  | join first second => (memory.join first second).map Prod.snd
  | convert region fill => (memory.convert region fill).map Prod.snd

theorem run_perform (h : host.Reliable) (request : Request) :
    run request.perform host =
      match request.apply host.program.memory with
      | .ok memory => (.ok (), host.withMemory memory)
      | .error e => (.error e, host) := by
  cases request with
  | create plan =>
    rw [perform, apply, Action.run_bind, Host.run_createBlock h]
    cases host.program.memory.create plan <;> rfl
  | write address bytes =>
    cases hwrite : host.program.memory.write address bytes <;>
      simp only [perform, apply, Host.run_setBytes h, hwrite]
  | join first second =>
    rw [perform, apply, Action.run_bind, Host.join, Host.run_changeMemory h]
    dsimp only
    cases host.program.memory.join first second <;> rfl
  | convert region fill =>
    rw [perform, apply, Action.run_bind, Host.convert, Host.run_changeMemory h]
    dsimp only
    cases host.program.memory.convert region fill <;> rfl

theorem map_snd_eq_ok {ε α β : Type} {r : Except ε (α × β)} {b : β} (h : r.map Prod.snd = .ok b) :
    ∃ a, r = .ok (a, b) := by
  cases r with
  | error e => cases h
  | ok p =>
    cases h
    exact ⟨p.1, rfl⟩

theorem apply_sound (hs : memory.Sound) (hp : request.Proper memory)
    (h : request.apply memory = .ok memory') : memory'.Sound := by
  cases request with
  | create plan =>
    obtain ⟨region, hc⟩ := map_snd_eq_ok h
    exact (Memory.create_eq_ok hc).sound hp hs
  | write address bytes => exact hs.write h
  | join first second =>
    obtain ⟨region, hj⟩ := map_snd_eq_ok h
    exact hs.join hp.1 hp.2 hj
  | convert region fill =>
    obtain ⟨other, hc⟩ := map_snd_eq_ok h
    exact hs.convert hp hc

end Request

namespace Memory

variable {before memory : Memory} {plan : Region.Plan} {region : Region}

/-- The cells of a new region are those of its data, or all alike. -/
theorem Created.cells (hc : Created plan before region memory) (hplan : plan.data = none ∨ plan.size = none)
    (hs : before.Sound) (place : Int) :
    memory.cell? place = (Request.create plan).cells before.cell? place := by
  have hsize := hc.size
  have hdata := hc.data
  have hpos := hc.positive
  rw [hc.cell?_eq hs (hc.sound hplan hs), Region.stop, hc.start]
  obtain ⟨name, start, data?, size?, read, write, execute, initialized⟩ := plan
  cases data? with
  | some data =>
    obtain rfl : size? = none := hplan.resolve_left (Option.some_ne_none data)
    have hlength : region.size = data.size := (Except.ok.inj hsize).symm
    have hself : region.data = some data := by
      rw [hdata, hlength]
      simp [plannedData, Bytes.zeros]
    rw [Region.cell?_data hself, hc.start, hlength]
    rfl
  | none =>
    cases size? with
    | none => cases hsize
    | some size =>
      obtain rfl : size = region.size := Except.ok.inj hsize
      split <;> rename_i hp
      · rw [Request.cells]
        dsimp only at hp ⊢
        rw [if_pos hp]
        cases initialized with
        | false => exact Region.cell?_blank hdata
        | true =>
          have hzeros : region.data = some (Bytes.zeros region.size.toNat) := hdata
          have hstart : region.start = start := hc.start
          rw [Region.cell?_data hzeros, hstart, Bytes.zeros, Array.getElem?_replicate, if_pos (by omega)]
          rfl
      · rw [Request.cells]
        exact (if_neg hp).symm

end Memory

namespace Request

variable {memory memory' : Memory} {request : Request} {host : Host} {address size : Int}

theorem apply_cells (hs : memory.Sound) (hp : request.Proper memory)
    (h : request.apply memory = .ok memory') (place : Int) :
    memory'.cell? place = request.cells memory.cell? place := by
  cases request with
  | create plan =>
    obtain ⟨region, hc⟩ := map_snd_eq_ok h
    exact (Memory.create_eq_ok hc).cells hp hs place
  | write address bytes => exact hs.cell?_write h place
  | join first second =>
    obtain ⟨region, hj⟩ := map_snd_eq_ok h
    exact hs.cell?_join hp.1 hp.2 hj place
  | convert region fill =>
    obtain ⟨other, hc⟩ := map_snd_eq_ok h
    exact hs.cell?_convert hp hc place

/-- What could be read stays so when regions are added, joined or filled. -/
theorem apply_readable (hs : memory.Sound) (hp : request.Proper memory)
    (h : request.apply memory = .ok memory') (hr : memory.Readable address size)
    (hw : ∀ address bytes, request ≠ .write address bytes) : memory'.Readable address size := by
  cases request with
  | create plan =>
    obtain ⟨region, hc⟩ := map_snd_eq_ok h
    exact hr.create (Memory.create_eq_ok hc)
  | write address bytes => exact absurd rfl (hw address bytes)
  | join first second =>
    obtain ⟨region, hj⟩ := map_snd_eq_ok h
    exact hr.join hs hp.1 hp.2 hj
  | convert region fill =>
    obtain ⟨other, hc⟩ := map_snd_eq_ok h
    exact hr.convert hs hp hc

/-- A byte stays when regions are added, joined or filled. -/
theorem apply_kept {place : Int} {b : UInt8} (hs : memory.Sound) (hp : request.Proper memory)
    (h : request.apply memory = .ok memory') (hb : memory.cell? place = some (.byte b))
    (hw : ∀ address bytes, request ≠ .write address bytes) : memory'.cell? place = some (.byte b) := by
  cases request with
  | create plan =>
    obtain ⟨region, hc⟩ := map_snd_eq_ok h
    have hcreated := Memory.create_eq_ok hc
    obtain ⟨other, hm, hother⟩ := Memory.region_of_cell? hb
    rw [hcreated.cell?_eq hs (hcreated.sound hp hs), if_neg, hb]
    intro hregion
    rcases hcreated.apart other hm with hle | hle <;> omega
  | write address bytes => exact absurd rfl (hw address bytes)
  | join first second => exact (apply_cells hs hp h place).trans hb
  | convert region fill =>
    rw [apply_cells hs hp h, cells, if_neg, hb]
    rintro ⟨-, hblank⟩
    rw [hb] at hblank
    cases hblank

end Request

namespace Host

variable {host host' : Host}

/-- Hosts that arise from an empty program by requests, some of which may have failed. -/
inductive Built : Host → Prop
  | empty : Built (.ofProgram .empty)
  | perform {host : Host} (request : Request) : Built host → request.Proper host.program.memory →
      Built (run request.perform host).2

/-- The memory of a host is a map from addresses to cells. -/
structure MapsCells (host : Host) : Prop where
  /-- A request changes the map as intended. -/
  changes : ∀ (request : Request) host', request.Proper host.program.memory →
    run request.perform host = (.ok (), host') →
    ∀ place, host'.program.memory.cell? place = request.cells host.program.memory.cell? place
  failed : ∀ (request : Request) host' e, run request.perform host = (.error e, host') → host' = host
  /-- A range can be read if and only if it lies in one region that is initialized. -/
  readable : ∀ address size, 0 < size → ((∃ bytes, run (readBytes address size) host = (.ok bytes, host)) ↔
    ∃ region ∈ host.program.memory, region.initialized ∧
      region.start ≤ address ∧ address + size ≤ region.stop)
  /-- What is read is what the map has. -/
  bytes : ∀ address size bytes, 0 < size → run (readBytes address size) host = (.ok bytes, host) →
    (bytes.size : Int) = size ∧
      ∀ i : Nat, i < size → host.program.memory.cell? (address + i) = bytes[i]?.map .byte
  /-- Only a write changes what is read. -/
  kept : ∀ (request : Request) host', request.Proper host.program.memory →
    (∀ address bytes, request ≠ .write address bytes) → run request.perform host = (.ok (), host') →
    ∀ address size bytes, 0 < size → run (readBytes address size) host = (.ok bytes, host) →
      run (readBytes address size) host' = (.ok bytes, host')

theorem Built.reliable (h : host.Built) : host.Reliable := by
  induction h with
  | empty => exact reliable_ofProgram _
  | perform request _ _ ih =>
    rw [Request.run_perform ih]
    split
    · exact ih
    · exact ih

theorem Built.sound (h : host.Built) : host.program.memory.Sound := by
  induction h with
  | empty => exact Memory.sound_nil
  | perform request h hp ih =>
    rw [Request.run_perform h.reliable]
    split <;> rename_i ha
    · exact Request.apply_sound ih hp ha
    · exact ih

theorem run_readBytes (h : host.Reliable) (address size : Int) :
    run (readBytes address size) host = (host.program.memory.read address size, host) :=
  run_ask h _ _

/-- Through any requests memory stays a map from addresses to cells, of which each changes just what it
is to change. -/
theorem Built.mapsCells (h : host.Built) : host.MapsCells := by
  have hs := h.sound
  have hrel := h.reliable
  have hdone : ∀ (request : Request) host', run request.perform host = (.ok (), host') →
      ∃ memory, request.apply host.program.memory = .ok memory ∧ host' = host.withMemory memory := by
    intro request host' hr
    rw [Request.run_perform hrel] at hr
    split at hr <;> rename_i ha
    · cases hr
      exact ⟨_, ha, rfl⟩
    · cases hr
  constructor
  case changes =>
    intro request host' hp hr
    obtain ⟨memory, ha, rfl⟩ := hdone request host' hr
    exact Request.apply_cells hs hp ha
  case failed =>
    intro request host' e hr
    rw [Request.run_perform hrel] at hr
    split at hr
    · cases hr
    · cases hr
      rfl
  case readable =>
    intro address size hpos
    simp only [run_readBytes hrel, Prod.mk.injEq, and_true, hs.exists_read_iff hpos, Memory.Readable,
      Region.initialized, Option.isSome_iff_ne_none]
  case bytes =>
    intro address size bytes hpos hr
    rw [run_readBytes hrel, Prod.mk.injEq] at hr
    exact hs.cells_of_read hpos hr.1
  case kept =>
    intro request host' hp hw hr address size bytes hpos hread
    obtain ⟨memory, ha, rfl⟩ := hdone request host' hr
    rw [run_readBytes hrel, Prod.mk.injEq] at hread
    have hreadable := Request.apply_readable hs hp ha (Memory.readable_of_read hread.1) hw
    rw [run_readBytes (hrel.withMemory memory)]
    refine congrArg (·, host.withMemory memory) ?_
    exact hs.read_congr (Request.apply_sound hs hp ha) hpos hreadable
      (fun _ _ hb ↦ Request.apply_kept hs hp ha hb hw) hread.1

/-- Two regions side by side, of which the one without content is filled and joined to the other. -/
def sampleRequests : List Request :=
  let first : Region := ⟨"a", 0x1000, 2, some #[1, 2], true, false, false⟩
  let second : Region := ⟨"b", 0x1002, 2, none, true, false, false⟩
  [.create { name := "a", address := 0x1000, data := some #[1, 2] },
    .create { name := "b", address := 0x1002, size := some 2, initialized := false },
    .convert second 7, .join first { second with data := some #[7, 7] }]

theorem mapsCells_sample :
    let host := sampleRequests.foldl (fun host request ↦ (run request.perform host).2) (.ofProgram .empty)
    host.Built ∧ host.MapsCells ∧
      (run (readBytes 0x1001 3) host).1 = .ok #[2, 7, 7] := by
  intro host
  have hbuilt : host.Built := by
    refine .perform _ (.perform _ (.perform _ (.perform _ .empty ?_) ?_) ?_) ?_ <;>
      simp only [Request.Proper] <;> decide
  exact ⟨hbuilt, hbuilt.mapsCells, by decide⟩

end Host

end Hunks
