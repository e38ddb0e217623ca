import Mathlib
import Hunks.Proofs.Confined

namespace Hunks

namespace Action

variable {σ ε β γ : Type} {step : β → Action σ ε (β ⊕ γ)} {P : σ → Prop}

/-- A loop without a bound: rounds up to the first one that answers or fails. -/
inductive Rounds (step : β → Action σ ε (β ⊕ γ)) : β → σ → Except ε γ → σ → Prop
  | answer {b : β} {s t : σ} {c : γ} :
      run (step b) s = (.ok (.inr c), t) → Rounds step b s (.ok c) t
  | fail {b : β} {s t : σ} {e : ε} :
      run (step b) s = (.error e, t) → Rounds step b s (.error e) t
  | next {b b' : β} {s s' t : σ} {r : Except ε γ} :
      run (step b) s = (.ok (.inl b'), s') → Rounds step b' s' r t → Rounds step b s r t

/-- How a loop ends is known from how it goes on behind a round. -/
theorem Rounds.of_next {b b' : β} {s s' t : σ} {r : Except ε γ} (h : Rounds step b s r t)
    (hrun : run (step b) s = (.ok (.inl b'), s')) : Rounds step b' s' r t := by
  cases h with
  | answer hr => cases hrun.symm.trans hr
  | fail hr => cases hrun.symm.trans hr
  | next hr hrest =>
    cases hrun.symm.trans hr
    exact hrest

theorem Rounds.of_answer {b : β} {c : γ} {s s' t : σ} {r : Except ε γ} (h : Rounds step b s r t)
    (hrun : run (step b) s = (.ok (.inr c), s')) : r = .ok c ∧ t = s' := by
  cases h with
  | answer hr =>
    cases hrun.symm.trans hr
    exact ⟨rfl, rfl⟩
  | fail hr => cases hrun.symm.trans hr
  | next hr _ => cases hrun.symm.trans hr

theorem Rounds.of_error {b : β} {e : ε} {s s' t : σ} {r : Except ε γ} (h : Rounds step b s r t)
    (hrun : run (step b) s = (.error e, s')) : r = .error e := by
  cases h with
  | answer hr => cases hrun.symm.trans hr
  | fail hr =>
    cases hrun.symm.trans hr
    rfl
  | next hr _ => cases hrun.symm.trans hr

/-- A loop in which each further round brings a measure down ends, and a limit above the measure does
not show. -/
theorem exists_rounds (measure : β → Nat) (hP : ∀ b, (step b).Preserves P)
    (hstep : ∀ b b' s s', P s → run (step b) s = (.ok (.inl b'), s') → measure b' < measure b)
    {n : Nat} {b : β} {s : σ} (hs : P s) (hn : measure b < n) :
    ∃ r t, Rounds step b s r t ∧ run (repeatUpTo n step b) s = (r.map .inr, t) := by
  induction n generalizing b s with
  | zero => exact absurd hn (Nat.not_lt_zero _)
  | succ n ih =>
    rw [run_repeatUpTo_succ]
    rcases hr : run (step b) s with ⟨e | (b' | c), s'⟩
    · exact ⟨.error e, s', .fail hr, run_bind_error hr⟩
    · have hlt := hstep b b' s s' hs hr
      obtain ⟨r, t, hrounds, hrun⟩ := ih (b := b') ((hP b).of_run hr hs) (by omega)
      exact ⟨r, t, .next hr hrounds, (run_bind_ok hr).trans hrun⟩
    · exact ⟨.ok c, s', .answer hr, run_bind_ok hr⟩

end Action

end Hunks
