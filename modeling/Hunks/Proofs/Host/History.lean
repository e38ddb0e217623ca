import Mathlib
import Hunks.Proofs.Host.Calls

namespace Hunks

open Hunks.Action (run)

namespace Host

variable {start host host' last : Host} {α : Type} {operation : Operation}
  {deeds more : List (Call × Except AccessError Unit)}

theorem ask_eq_ok {f : Program → Except AccessError α} {a : α}
    (h : run (ask operation f) host = (.ok a, host')) :
    f host.program = .ok a ∧ host'.program = host.program := by
  obtain ⟨limits, henter, -⟩ := run_enter_eq operation host
  rw [ask] at h
  split at henter
  · rw [Action.run_bind_error henter] at h
    cases h
  · rw [Action.run_bind_ok henter, Action.run_bind_ok (Action.run_get _), Action.run_ofExcept, Prod.mk.injEq] at h
    obtain ⟨hanswer, rfl⟩ := h
    exact ⟨hanswer, rfl⟩

theorem changeMemory_eq_ok {f : Memory → Except AccessError (α × Memory)} {a : α}
    (h : run (changeMemory operation f) host = (.ok a, host')) :
    f host.program.memory = .ok (a, host'.program.memory) := by
  obtain ⟨⟨_, memory⟩, middle, hask, h⟩ := Action.run_bind_eq_ok.mp h
  cases h
  exact (ask_eq_ok hask).1

/-- Calls of any kind made one after the other, each with how it ended. They may have any arguments, but the
regions that they join or fill are those of the memory at that time. Which operations are going to fail may change
between any two calls. -/
inductive History (start : Host) : List (Call × Except AccessError Unit) → Host → Prop
  | nil : History start [] start
  | limit {deeds : List (Call × Except AccessError Unit)} {host : Host} (limits : List (Operation × Nat)) :
      History start deeds host → History start deeds { host with limits }
  | perform {deeds : List (Call × Except AccessError Unit)} {host : Host} (call : Call) :
      History start deeds host → call.InPlace host.program.memory →
      History start (deeds ++ [(call, (run call.perform host).1)]) (run call.perform host).2

/-- The calls that worked. -/
def worked (deeds : List (Call × Except AccessError Unit)) : List Call :=
  deeds.filterMap fun
    | (call, .ok ()) => some call
    | (_, .error _) => none

theorem worked_append (deeds more : List (Call × Except AccessError Unit)) :
    worked (deeds ++ more) = worked deeds ++ worked more :=
  List.filterMap_append

theorem mem_worked {call other : Call} {result : Except AccessError Unit} :
    other ∈ worked [(call, result)] ↔ other = call ∧ result = .ok () := by
  rcases result with _ | ⟨⟩ <;> simp [worked]

namespace History

theorem append (h : start.History deeds host) (h' : host.History more last) :
    start.History (deeds ++ more) last := by
  induction h' with
  | nil => rwa [List.append_nil]
  | limit limits _ ih => exact ih.limit limits
  | perform call _ hp ih =>
    rw [← List.append_assoc]
    exact ih.perform call hp

theorem arranged {limits : List (Operation × Nat)} (h : History ⟨.empty, limits⟩ deeds host) :
    host.program.memory.Arranged := by
  induction h with
  | nil => exact ⟨.nil, List.forall_mem_nil _⟩
  | limit limits _ ih => exact ih
  | perform call _ hp ih => exact call.arranged_of_run ih hp

end History

end Host

end Hunks
