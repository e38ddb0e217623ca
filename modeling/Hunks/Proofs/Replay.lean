import Mathlib
import Hunks.Proofs.Outcome

namespace Hunks

namespace Action

variable {σ ε α β : Type} {I B : σ → Prop} {R : σ → σ → Prop}

/-- A computation that gives its answer again in every state related to the one it started in. All
states of the first run have `I`, and they have `B` if the last one has. -/
def Replays (I B : σ → Prop) (R : σ → σ → Prop) (x : Action σ ε α) : Prop :=
  ∀ s a s', I s → run x s = (.ok a, s') →
    I s' ∧ (B s' → B s ∧ ∀ t, R s t → ∃ t', run x t = (.ok a, t') ∧ R s' t')

namespace Replays

theorem pure (a : α) : (pure a : Action σ ε α).Replays I B R := by
  intro s a' s' hI hr
  cases hr
  exact ⟨hI, fun hB ↦ ⟨hB, fun t hR ↦ ⟨t, rfl, hR⟩⟩⟩

theorem bind {x : Action σ ε α} {f : α → Action σ ε β} (hx : x.Replays I B R)
    (hf : ∀ a, (f a).Replays I B R) : (x >>= f).Replays I B R := by
  intro s b u hI hr
  obtain ⟨a, s', hfirst, hrest⟩ := run_bind_eq_ok.mp hr
  obtain ⟨hI', hback⟩ := hx s a s' hI hfirst
  obtain ⟨hI'', hback'⟩ := hf a s' b u hI' hrest
  refine ⟨hI'', fun hB ↦ ?_⟩
  obtain ⟨hB', hagain'⟩ := hback' hB
  obtain ⟨hB'', hagain⟩ := hback hB'
  refine ⟨hB'', fun t hR ↦ ?_⟩
  obtain ⟨t', hfirst', hR'⟩ := hagain t hR
  obtain ⟨v, hrest', hR''⟩ := hagain' t' hR'
  exact ⟨v, run_bind_eq_ok.mpr ⟨a, t', hfirst', hrest'⟩, hR''⟩

theorem forEach {f : α → Action σ ε Unit} {as : List α} (hf : ∀ a ∈ as, (f a).Replays I B R) :
    (forEach as f).Replays I B R := by
  induction as with
  | nil => exact pure ()
  | cons a as ih =>
    obtain ⟨ha, has⟩ := List.forall_mem_cons.mp hf
    intro s b s' hI hr
    have hcons : ∀ t, run (Action.forEach (a :: as) f) t = run (f a >>= fun _ ↦ Action.forEach as f) t :=
      run_foldl_cons (fun _ a ↦ f a) () a as
    simp only [hcons] at hr ⊢
    exact bind ha (fun _ ↦ ih has) s b s' hI hr

end Replays

end Action

end Hunks
