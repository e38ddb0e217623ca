import Mathlib
import Hunks.Proofs.Outcome

namespace Hunks

namespace Action

variable {σ τ ε δ α β γ : Type} {P : σ → Prop} {x : Action σ ε α}

/-- Where a property holds before a computation, it holds after it, also after a failure. -/
def Preserves (P : σ → Prop) (x : Action σ ε α) : Prop :=
  ∀ s, P s → P (run x s).2

namespace Preserves

theorem of_run (hx : x.Preserves P) {s t : σ} {r : Except ε α} (h : run x s = (r, t)) (hs : P s) :
    P t := by
  have ht := hx s hs
  rwa [h] at ht

theorem pure (a : α) : (pure a : Action σ ε α).Preserves P :=
  fun _ hs ↦ hs

theorem throw (e : ε) : (throw e : Action σ ε α).Preserves P :=
  fun _ hs ↦ hs

theorem get : (get : Action σ ε σ).Preserves P :=
  fun _ hs ↦ hs

theorem modify {f : σ → σ} (hf : ∀ s, P s → P (f s)) : (modify f : Action σ ε PUnit).Preserves P :=
  hf

theorem report (level : Level) (text : String) :
    (report level text : Action σ ε Unit).Preserves P :=
  fun _ hs ↦ hs

theorem bind {f : α → Action σ ε β} (hx : x.Preserves P) (hf : ∀ a, (f a).Preserves P) :
    (x >>= f).Preserves P := by
  intro s hs
  have ht := hx s hs
  rw [run_bind]
  rcases hr : run x s with ⟨_ | a, t⟩
  · rwa [hr] at ht
  · rw [hr] at ht
    exact hf a t ht

theorem attempt (hx : x.Preserves P) : (x.attempt : Action σ δ _).Preserves P :=
  fun s hs ↦ hx s hs

theorem mapError (f : ε → δ) (hx : x.Preserves P) : (x.mapError f).Preserves P := by
  intro s hs
  rw [run_mapError]
  exact hx s hs

theorem focus {Q : τ → Prop} {part : τ → σ} {replace : σ → τ → τ} (hx : x.Preserves P)
    (hpart : ∀ t, Q t → P (part t)) (hreplace : ∀ s t, P s → Q t → Q (replace s t)) :
    (x.focus part replace).Preserves Q := by
  intro t ht
  rw [run_focus]
  exact hreplace _ t (hx _ (hpart t ht)) ht

theorem foldl {f : β → α → Action σ ε β} {as : List α} (hf : ∀ b, ∀ a ∈ as, (f b a).Preserves P)
    (b : β) : (foldl f b as).Preserves P := by
  induction as generalizing b with
  | nil =>
    intro s hs
    rwa [run_foldl_nil]
  | cons a as ih =>
    intro s hs
    rw [run_foldl_cons]
    refine bind (hf b a List.mem_cons_self) (fun b ↦ ?_) s hs
    exact ih (fun b a hm ↦ hf b a (List.mem_cons_of_mem _ hm)) b

theorem forEach {f : α → Action σ ε Unit} {as : List α} (hf : ∀ a ∈ as, (f a).Preserves P) :
    (forEach as f).Preserves P :=
  foldl (fun _ a hm ↦ hf a hm) ()

end Preserves

end Action

end Hunks
