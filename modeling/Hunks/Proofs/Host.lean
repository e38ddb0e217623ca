import Mathlib
import Hunks.Host
import Hunks.Proofs.Outcome

namespace Hunks

open Hunks.Action (run)

namespace Host

variable {host : Host} {α : Type}

/-- A host whose operations do not fail by themselves. -/
def Reliable (host : Host) : Prop :=
  host.limits = []

theorem reliable_ofProgram (program : Program) : (ofProgram program).Reliable := rfl

def withMemory (host : Host) (memory : Memory) : Host :=
  { host with program := { host.program with memory } }

theorem Reliable.withMemory (h : host.Reliable) (memory : Memory) :
    (host.withMemory memory).Reliable := h

theorem run_enter (h : host.Reliable) (operation : Operation) :
    run (enter operation) host = (.ok (), host) := by
  have hl : host.limits.lookup operation = none := by
    rw [h]
    rfl
  rw [enter, Action.run_bind, Action.run_get]
  dsimp only
  rw [hl]
  rfl

theorem run_ask (h : host.Reliable) (operation : Operation)
    (f : Program → Except AccessError α) :
    run (ask operation f) host = (f host.program, host) := by
  rw [ask, Action.run_bind_ok (run_enter h operation), Action.run_bind, Action.run_get]
  dsimp only
  rw [Action.run_ofExcept]

@[simp] theorem run_change (f : Program → Program) (host : Host) :
    run (change f) host = (.ok (), { host with program := f host.program }) := rfl

theorem run_changeMemory (h : host.Reliable) (operation : Operation)
    (f : Memory → Except AccessError (α × Memory)) :
    run (changeMemory operation f) host =
      match f host.program.memory with
      | .ok (a, memory) => (.ok a, host.withMemory memory)
      | .error e => (.error e, host) := by
  rw [changeMemory, Action.run_bind, run_ask h]
  cases f host.program.memory <;> rfl

theorem run_createBlock (h : host.Reliable) (plan : Region.Plan) :
    run (createBlock plan) host =
      match Memory.create plan host.program.memory with
      | .ok (region, memory) => (.ok region, host.withMemory memory)
      | .error e => (.error e, host) := by
  rw [createBlock, Action.run_bind, run_changeMemory h]
  cases Memory.create plan host.program.memory <;> rfl

theorem run_setBytes (h : host.Reliable) (address : Int) (bytes : Bytes) :
    run (setBytes address bytes) host =
      match host.program.memory.write address bytes with
      | .ok memory => (.ok (), host.withMemory memory)
      | .error e => (.error e, host) := by
  rw [setBytes, run_changeMemory h]
  cases host.program.memory.write address bytes <;> rfl

theorem run_createLabel (h : host.Reliable) (address : Int) (name origin : String) :
    run (createLabel address name origin) host =
      (.ok (host.program.addLabel ⟨address, name, origin⟩).1,
        { host with program := (host.program.addLabel ⟨address, name, origin⟩).2 }) := by
  rw [createLabel, Action.run_bind_ok (run_enter h _)]
  rfl

theorem run_readNumber (h : host.Reliable) (operation : Operation) {size : Nat} {address : Int}
    {bytes : Bytes} (hread : host.program.memory.read address size = .ok bytes) :
    run (readNumber operation size address) host = (.ok (Bytes.toNat bytes.toList), host) := by
  have hbytes : run (readBytes address size) host = (.ok bytes, host) := by
    rw [readBytes, run_ask h, hread]
  rw [readNumber, Action.run_bind_ok (run_enter h _), Action.run_bind_ok hbytes]
  rfl

theorem run_createData (h : host.Reliable) (address : Int) (type : Option DataType) :
    run (createData address type) host =
      (.ok (), { host with program := host.program.setData address type }) := by
  rw [createData, Action.run_bind_ok (run_enter h _), run_change]

theorem run_lookupGlobal (h : host.Reliable) (name : String) :
    run (lookupGlobal name) host = (.ok (host.program.address? name), host) :=
  run_ask h _ _

end Host

end Hunks
