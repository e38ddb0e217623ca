import Mathlib
import Hunks.Proofs.Resident.Requests

namespace Hunks

open Hunks.Action (run)

namespace Resident

namespace Scanner

variable {ρ α β δ ε : Type} {sources : Sources ρ} {scanner : Scanner (List Request × ρ)}
  {x y : Action (Scanner (List Request × ρ)) ε α} {f : α → Action (Scanner (List Request × ρ)) ε β}
  {Q Q' : Except ε α → List Stage → Prop} {R : Except ε β → List Stage → Prop}

/-- Whatever a computation does to the desk, it does in decodings of tables. -/
def Accounts (sources : Sources ρ) (Q : Except ε α → List Stage → Prop)
    (x : Action (Scanner (List Request × ρ)) ε α) : Prop :=
  ∀ scanner, scanner.Ready → ∃ stages, History sources scanner.desk stages (run x scanner).2.desk ∧
    (run x scanner).2.Ready ∧ Q (run x scanner).1 stages

theorem Quiet.accounts (hx : Quiet x) (hQ : ∀ result, Q result []) : Accounts sources Q x := by
  intro scanner hready
  have hbeside := hx.beside scanner
  exact ⟨[], hbeside.desk ▸ .nil _, hbeside.ready hready, hQ _⟩

theorem Accounts.bind (hx : Accounts sources Q x)
    (herror : ∀ e stages, Q (.error e) stages → R (.error e) stages)
    (hf : ∀ a stages, Q (.ok a) stages → Accounts sources (fun result more ↦ R result (stages ++ more)) (f a)) :
    Accounts sources R (x >>= f) := by
  intro scanner hready
  obtain ⟨stages, hstages, hready', hQ⟩ := hx scanner hready
  rw [Action.run_bind]
  rcases hr : run x scanner with ⟨e | a, middle⟩
  · rw [hr] at hstages hready' hQ
    exact ⟨stages, hstages, hready', herror e stages hQ⟩
  · rw [hr] at hstages hready' hQ
    obtain ⟨more, hmore, hready'', hR⟩ := hf a stages hQ middle hready'
    exact ⟨stages ++ more, hstages.append hmore, hready'', hR⟩

/-- What follows a computation that only concerns the host. -/
theorem Accounts.behind (hx : Quiet x) (herror : ∀ e, R (.error e) []) (hf : ∀ a, Accounts sources R (f a)) :
    Accounts sources R (x >>= f) := by
  refine Accounts.bind (Q := fun _ stages ↦ stages = []) (hx.accounts fun _ ↦ rfl) ?_ ?_
  · rintro e _ rfl
    exact herror e
  · rintro a _ rfl
    exact hf a

theorem Accounts.of_run_eq (hy : Accounts sources Q y) (h : ∀ scanner, run x scanner = run y scanner) :
    Accounts sources Q x := by
  intro scanner hready
  rw [h]
  exact hy scanner hready

theorem Accounts.mono (hx : Accounts sources Q x) (hQ : ∀ result stages, Q result stages → Q' result stages) :
    Accounts sources Q' x := by
  intro scanner hready
  obtain ⟨stages, hstages, hready', h⟩ := hx scanner hready
  exact ⟨stages, hstages, hready', hQ _ _ h⟩

theorem Accounts.pure {a : α} (hQ : Q (.ok a) []) :
    Accounts sources Q (Pure.pure a) :=
  fun _ hready ↦ ⟨[], .nil _, hready, hQ⟩

theorem Accounts.throw {e : ε} (hQ : Q (.error e) []) :
    Accounts sources Q (MonadExcept.throw e) :=
  fun _ hready ↦ ⟨[], .nil _, hready, hQ⟩

theorem Accounts.attempt (hx : Accounts sources Q x) :
    Accounts sources (fun result stages ↦ ∃ inner, result = .ok inner ∧ Q inner stages)
      (x.attempt : Action (Scanner (List Request × ρ)) δ _) := by
  intro scanner hready
  obtain ⟨stages, hstages, hready', hQ⟩ := hx scanner hready
  exact ⟨stages, hstages, hready', _, rfl, hQ⟩

/-- A call for the modules from an address on, or for the one at an address. -/
inductive Call
  | scan (start : Int)
  | analyze (address : Int)

def Call.perform {ρ : Type} (sources : Sources ρ) : Call → Scan ρ (List Resident)
  | scan start => Scanner.scan sources start
  | analyze address => do return [← Scanner.analyze sources address]

end Scanner

end Resident

end Hunks
