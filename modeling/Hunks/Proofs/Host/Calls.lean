import Mathlib
import Hunks.Proofs.Host.Requests
import Hunks.Proofs.Host.Twins

namespace Hunks

open Hunks.Action (run Preserves)

namespace Memory

variable {memory memory' before : Memory} {region other : Region} {plan : Region.Plan} {address fill : Int}
  {bytes : Bytes}

theorem Created.arranged (h : Created plan before region memory) (hb : before.Arranged) : memory.Arranged := by
  rw [h.memory]
  exact hb.insert h.positive h.apart

/-- New content does not move a region. -/
theorem Arranged.setData (h : memory.Arranged) (hr : region ∈ memory) (content : Option Bytes) :
    (memory.update { region with data := content }).Arranged := by
  refine h.update hr rfl (h.positive region hr) fun next _ hle ↦ ?_
  exact hle

theorem Arranged.write (h : memory.Arranged) (hw : memory.write address bytes = .ok memory') :
    memory'.Arranged := by
  obtain ⟨region, data, hr, -, -, -, rfl⟩ := write_eq_ok hw
  exact h.setData hr _

theorem Arranged.convert (h : memory.Arranged) (hr : region ∈ memory)
    (hc : memory.convert region fill = .ok (other, memory')) : memory'.Arranged := by
  rcases convert_eq_ok hc with ⟨-, rfl⟩ | ⟨-, rfl⟩
  · exact h
  · exact h.setData hr _

theorem Arranged.sorted (h : memory.Arranged) :
    memory.Pairwise fun region other ↦ region.start < other.start := by
  apply h.ordered.imp_of_mem
  intro region other hr _ hle
  have hpos := h.positive region hr
  rw [Region.stop] at hle
  omega

end Memory

namespace Host

variable {α : Type}

/-- Memory is changed as a whole or not at all, also where operations fail by themselves. -/
theorem run_change_memory {x : Access Unit} (operation : Operation)
    (f : Memory → Except AccessError (α × Memory))
    (hx : ∀ host, run x host = ((run (changeMemory operation f) host).1.map fun _ ↦ (),
      (run (changeMemory operation f) host).2)) (host : Host) :
    ∃ limits, run x host =
      if host.limits.lookup operation = some 0 then (.error (.injected operation), { host with limits })
      else match (f host.program.memory).map Prod.snd with
        | .ok memory => (.ok (), { host with limits }.withMemory memory)
        | .error e => (.error e, { host with limits }) := by
  obtain ⟨limits, henter, -⟩ := run_enter_eq operation host
  refine ⟨limits, ?_⟩
  rw [hx, changeMemory, ask]
  split at henter <;> rename_i hlimit
  · rw [if_pos hlimit, Action.run_bind_error (Action.run_bind_error henter)]
    rfl
  · rw [if_neg hlimit, Action.run_bind, Action.run_bind_ok henter, Action.run_bind_ok (Action.run_get _),
      Action.run_ofExcept]
    cases f host.program.memory <;> rfl

end Host

namespace Request

variable {memory memory' : Memory} {request : Request}

/-- The regions that are joined or filled are those of the memory. -/
def InPlace (memory : Memory) : Request → Prop
  | create _ => True
  | write _ _ => True
  | join first second => first ∈ memory ∧ second ∈ memory
  | convert region _ => region ∈ memory

theorem apply_arranged (h : memory.Arranged) (hp : request.InPlace memory)
    (ha : request.apply memory = .ok memory') : memory'.Arranged := by
  cases request with
  | create plan =>
    obtain ⟨region, hc⟩ := map_snd_eq_ok ha
    exact (Memory.create_eq_ok hc).arranged h
  | write address bytes => exact h.write ha
  | join first second =>
    obtain ⟨region, hj⟩ := map_snd_eq_ok ha
    exact h.join hp.1 hp.2 hj
  | convert region fill =>
    obtain ⟨other, hc⟩ := map_snd_eq_ok ha
    exact h.convert hp hc

def operation : Request → Operation
  | create _ => .createBlock
  | write _ _ => .setBytes
  | join _ _ => .join
  | convert _ _ => .convert

theorem run_perform_eq (request : Request) (host : Host) : ∃ limits, run request.perform host =
    if host.limits.lookup request.operation = some 0 then
      (.error (.injected request.operation), { host with limits })
    else match request.apply host.program.memory with
      | .ok memory => (.ok (), { host with limits }.withMemory memory)
      | .error e => (.error e, { host with limits }) := by
  cases request with
  | create plan =>
    apply Host.run_change_memory .createBlock (Memory.create plan)
    intro host
    rw [perform, Action.run_bind, Host.createBlock, Action.run_bind]
    rcases run (Host.changeMemory .createBlock (Memory.create plan)) host with ⟨_ | _, _⟩ <;> rfl
  | write address bytes =>
    have hrun : ∀ host, run (Host.setBytes address bytes) host =
        ((run (Host.setBytes address bytes) host).1.map fun _ ↦ (), (run (Host.setBytes address bytes) host).2) := by
      intro host
      rcases run (Host.setBytes address bytes) host with ⟨_ | _, _⟩ <;> rfl
    obtain ⟨limits, hrun⟩ := Host.run_change_memory .setBytes
      (fun memory ↦ do return ((), ← memory.write address bytes)) hrun host
    refine ⟨limits, ?_⟩
    rw [perform, hrun, operation, apply]
    cases host.program.memory.write address bytes <;> rfl
  | join first second =>
    apply Host.run_change_memory .join (Memory.join first second)
    intro host
    rw [perform, Action.run_bind, Host.join]
    rcases run (Host.changeMemory .join (Memory.join first second)) host with ⟨_ | _, _⟩ <;> rfl
  | convert region fill =>
    apply Host.run_change_memory .convert (Memory.convert region fill)
    intro host
    rw [perform, Action.run_bind, Host.convert]
    rcases run (Host.changeMemory .convert (Memory.convert region fill)) host with ⟨_ | _, _⟩ <;> rfl

end Request

/-- An operation of a program with its arguments. -/
inductive Call where
  | change (request : Request)
  | getBlock (name : String)
  | readBytes (address size : Int)
  | readNumber (operation : Operation) (size : Nat) (address : Int)
  | contains (address : Int)
  | find (start : Int) (pattern : List UInt8)
  | createLabel (address : Int) (name origin : String)
  | lookupGlobal (name : String)
  | getLabels (address : Int)
  | declareFunction (address : Int) (name : String) (parameters : List Parameter)
  | addEntryPoint (address : Int)
  | createData (address : Int) (type : Option DataType)
  | addReference (source target : Int)

namespace Call

variable {call : Call} {host : Host}

def perform : Call → Host.Access Unit
  | change request => request.perform
  | getBlock name => do let _ ← Host.getBlock name
  | readBytes address size => do let _ ← Host.readBytes address size
  | readNumber operation size address => do let _ ← Host.readNumber operation size address
  | contains address => do let _ ← Host.contains address
  | find start pattern => do let _ ← Host.find start pattern
  | createLabel address name origin => do let _ ← Host.createLabel address name origin
  | lookupGlobal name => do let _ ← Host.lookupGlobal name
  | getLabels address => do let _ ← Host.getLabels address
  | declareFunction address name parameters => Host.declareFunction address name parameters
  | addEntryPoint address => Host.addEntryPoint address
  | createData address type => Host.createData address type
  | addReference source target => Host.addReference source target

/-- A call may have any arguments, but the regions that it joins or fills are those of the memory. -/
def InPlace (memory : Memory) : Call → Prop
  | change request => request.InPlace memory
  | _ => True

/-- The label that a call asks for. -/
def label? : Call → Option Label
  | createLabel address name origin => some ⟨address, name, origin⟩
  | declareFunction address name _ => some ⟨address, name, Label.imported⟩
  | _ => none

/-- What calls and notes keep, only a request or a label can change. -/
theorem perform_preserves {P : Host → Prop} (hP : Host.Frame P)
    (hrequest : ∀ request, call = .change request → request.perform.Preserves P)
    (hlabel : ∀ label, call.label? = some label →
      (Host.createLabel label.address label.name label.origin).Preserves P) : call.perform.Preserves P := by
  cases call with
  | change request => exact hrequest request rfl
  | getBlock name => exact .bind (Host.ask_preserves hP _ _) fun _ ↦ .pure _
  | readBytes address size => exact .bind (Host.ask_preserves hP _ _) fun _ ↦ .pure _
  | readNumber operation size address =>
    refine .bind (.bind (hP.enter operation) fun _ ↦ ?_) fun _ ↦ .pure _
    exact .bind (Host.ask_preserves hP _ _) fun _ ↦ .pure _
  | contains address => exact .bind (Host.ask_preserves hP _ _) fun _ ↦ .pure _
  | find start pattern => exact .bind (Host.ask_preserves hP _ _) fun _ ↦ .pure _
  | createLabel address name origin => exact .bind (hlabel ⟨address, name, origin⟩ rfl) fun _ ↦ .pure _
  | lookupGlobal name => exact .bind (Host.ask_preserves hP _ _) fun _ ↦ .pure _
  | getLabels address => exact .bind (Host.ask_preserves hP _ _) fun _ ↦ .pure _
  | declareFunction address name parameters =>
    exact Host.declareFunction_preserves hP (hlabel ⟨address, name, Label.imported⟩ rfl) parameters
  | addEntryPoint address => exact Host.addEntryPoint_preserves hP address
  | createData address type => exact Host.createData_preserves hP address type
  | addReference source target => exact Host.addReference_preserves hP source target

/-- A call changes memory as its request says, if it makes one and works, and else not at all. -/
theorem memory_of_run (call : Call) (host : Host) :
    (∃ request, call = .change request ∧ (run call.perform host).1 = .ok () ∧
      request.apply host.program.memory = .ok (run call.perform host).2.program.memory) ∨
    ((run call.perform host).1 = .ok () → ∀ request, call ≠ .change request) ∧
      (run call.perform host).2.program.memory = host.program.memory := by
  by_cases hc : ∃ request, call = .change request
  · obtain ⟨request, rfl⟩ := hc
    obtain ⟨limits, hrun⟩ := request.run_perform_eq host
    rw [perform, hrun]
    split
    · exact Or.inr ⟨nofun, rfl⟩
    · split <;> rename_i ha
      · exact Or.inl ⟨request, rfl, rfl, ha⟩
      · exact Or.inr ⟨nofun, rfl⟩
  · have hP := Host.memory_lasting host.program.memory
    have hkept := perform_preserves hP.frame (fun request he ↦ absurd ⟨request, he⟩ hc)
      fun label _ ↦ Host.createLabel_preserves hP _ _ _
    exact Or.inr ⟨fun _ request he ↦ hc ⟨request, he⟩, hkept host rfl⟩

/-- A call that fails leaves memory as it is. -/
theorem memory_of_error {e : AccessError} {host' : Host} (h : run call.perform host = (.error e, host')) :
    host'.program.memory = host.program.memory := by
  have hmemory := call.memory_of_run host
  rw [h] at hmemory
  rcases hmemory with ⟨_, -, hok, -⟩ | ⟨-, hkept⟩
  · cases hok
  · exact hkept

theorem arranged_of_run (harranged : host.program.memory.Arranged) (hp : call.InPlace host.program.memory) :
    (run call.perform host).2.program.memory.Arranged := by
  rcases call.memory_of_run host with ⟨request, rfl, -, ha⟩ | ⟨-, hkept⟩
  · exact Request.apply_arranged harranged hp ha
  · rw [hkept]
    exact harranged

end Call

namespace Host

variable {host : Host}

/-- Hosts that arise from an empty program by calls of any kind, some of which may have failed. -/
inductive Reached : Host → Prop
  | empty (limits : List (Operation × Nat)) : Reached ⟨.empty, limits⟩
  | perform {host : Host} (call : Call) : Reached host → call.InPlace host.program.memory →
      Reached (run call.perform host).2

theorem Reached.arranged (h : host.Reached) : host.program.memory.Arranged := by
  induction h with
  | empty limits => exact ⟨.nil, List.forall_mem_nil _⟩
  | perform call _ hp ih => exact call.arranged_of_run ih hp

/-- Whatever a program was asked for, its regions lie in the order of their starts, none is empty and no
two have a place in common, and a call that fails leaves them and their bytes as they are. -/
theorem Reached.regions_apart (h : host.Reached) :
    (host.program.memory.Pairwise fun region other ↦ region.start < other.start) ∧
      (∀ region ∈ host.program.memory, region.start < region.stop) ∧
      host.program.memory.Pairwise Region.Apart ∧
      ∀ (call : Call) e host', run call.perform host = (.error e, host') →
        host'.program.memory = host.program.memory := by
  have ha := h.arranged
  refine ⟨ha.sorted, fun region hr ↦ ?_, ?_, fun call e host' hrun ↦ call.memory_of_error hrun⟩
  · have hpos := ha.positive region hr
    rw [Region.stop]
    omega
  · apply ha.ordered.imp
    intro region other hle
    exact Or.inl hle

/-- A region with more bytes than its size, one that is joined to it from below, and one that overlaps. -/
def sampleCalls : List Call :=
  let second : Region := ⟨"b", 0x1000, 2, some #[1, 2, 3], true, false, false⟩
  let first : Region := ⟨"a", 0xffe, 2, some #[0, 0], true, false, false⟩
  [.change (.create { name := "b", address := 0x1000, data := second.data, size := some 2 }),
    .declareFunction 0x1000 "main" [], .change (.create { name := "a", address := 0xffe, size := some 2 }),
    .change (.create { name := "c", address := 0x1001, data := some #[4] }),
    .change (.join first second), .createLabel 0x1000 "main" Label.imported,
    .change (.create { name := "d", address := 0x1002, size := some 1, initialized := false })]

theorem regions_apart_sample :
    let host := sampleCalls.foldl (fun host call ↦ (run call.perform host).2) (.ofProgram .empty)
    host.Reached ∧ host.program.memory = [⟨"a", 0xffe, 4, some #[0, 0, 1, 2, 3], true, false, false⟩,
        ⟨"d", 0x1002, 1, none, true, false, false⟩] ∧
      host.program.memory.Pairwise Region.Apart ∧
      ∃ host', run (Call.change (.write 0x1001 #[5, 6])).perform host =
          (.error (.crossesEnd 0x1001 2 ⟨"a", 0xffe, 4, some #[0, 0, 1, 2, 3], true, false, false⟩), host') ∧
        host'.program.memory = host.program.memory := by
  intro host
  have hreached : host.Reached := by
    refine .perform _ (.perform _ (.perform _ (.perform _ (.perform _ (.perform _ (.perform _
      (.empty []) trivial) trivial) trivial) trivial) ?_) trivial) trivial
    simp only [Call.InPlace, Request.InPlace]
    decide
  have hresult : (run (Call.change (.write 0x1001 #[5, 6])).perform host).1 =
      .error (.crossesEnd 0x1001 2 ⟨"a", 0xffe, 4, some #[0, 0, 1, 2, 3], true, false, false⟩) := by
    decide
  obtain ⟨-, -, hapart, hkept⟩ := hreached.regions_apart
  have hrun := Prod.ext (x := run (Call.change (.write 0x1001 #[5, 6])).perform host) (y := (_, _)) hresult rfl
  exact ⟨hreached, by decide, hapart, _, hrun, hkept _ _ _ hrun⟩

end Host

end Hunks
