import Mathlib
import Hunks.Proofs.Resident

namespace Hunks

open Hunks.Action (run Abreast Confined Shared)

namespace Action

variable {σ ε α : Type} {P : σ → Prop} {E : ε → Prop} {x : Action σ ε α}

/-- One run of a computation is abreast of itself. -/
theorem Confined.abreast (hx : x.Confined P E) : x.Abreast (fun s t ↦ s = t ∧ P s) (Shared E) := by
  rintro s _ ⟨rfl, hs⟩
  have ht := hx.preserves s hs
  rcases hr : run x s with ⟨e | a, t⟩
  · rw [hr] at ht
    exact .error ⟨rfl, hx.raises s hs e (congrArg Prod.fst hr)⟩ ⟨rfl, ht⟩
  · rw [hr] at ht
    exact .ok rfl ⟨rfl, ht⟩

end Action

namespace Resident

namespace Scanner

variable {ρ α β γ δ ε : Type} {start scanner : Scanner ρ}

/-- Nothing but the host is different from a state. -/
def Beside (start scanner : Scanner ρ) : Prop :=
  ∃ host, scanner = { start with host }

/-- A computation that changes nothing but the host. -/
def Quiet (x : Action (Scanner ρ) ε α) : Prop :=
  ∀ start : Scanner ρ, x.Confined (Beside start) fun _ ↦ True

theorem Quiet.beside {x : Action (Scanner ρ) ε α} (hx : Quiet x) (scanner : Scanner ρ) :
    Beside scanner (run x scanner).2 :=
  (hx scanner).preserves scanner ⟨scanner.host, rfl⟩

theorem Quiet.pure (a : α) : Quiet (pure a : Scan ρ α) :=
  fun _ ↦ .pure a

theorem Quiet.attempt {x : Action (Scanner ρ) ε α} (hx : Quiet x) :
    Quiet (x.attempt : Action (Scanner ρ) δ _) :=
  fun start ↦ (hx start).preserves.attempt.confined

theorem Quiet.report (level : Level) (text : String) : Quiet (Action.report level text : Scan ρ Unit) :=
  fun _ ↦ .report level text

/-- A computation that returns and changes nothing but the host. -/
def Annotates (x : Scan ρ Unit) : Prop :=
  ∀ scanner, ∃ host, run x scanner = (.ok (), { scanner with host })

theorem Annotates.bind {x y : Scan ρ Unit} (hx : Annotates x) (hy : Annotates y) :
    Annotates (x >>= fun _ ↦ y) := by
  intro scanner
  obtain ⟨host, hrun⟩ := hx scanner
  obtain ⟨host', hrun'⟩ := hy { scanner with host }
  exact ⟨host', (Action.run_bind_ok hrun).trans hrun'⟩

end Scanner

end Resident

end Hunks
