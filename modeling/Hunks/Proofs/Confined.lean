import Mathlib
import Hunks.Proofs.Preserves

namespace Hunks

namespace Action

variable {σ τ ε δ α β γ : Type} {P : σ → Prop} {E : ε → Prop} {D : δ → Prop} {x : Action σ ε α}

/-- Where a property of states holds before a computation, it holds after it, and an error of the
computation has a property of its own. -/
structure Confined (P : σ → Prop) (E : ε → Prop) (x : Action σ ε α) : Prop where
  preserves : x.Preserves P
  raises : ∀ s, P s → ∀ e, (run x s).1 = .error e → E e

theorem Preserves.confined (h : x.Preserves P) : x.Confined P fun _ ↦ True :=
  ⟨h, fun _ _ _ _ ↦ trivial⟩

/-- A computation that fails in no state with a property. -/
theorem Preserves.confined_of_ok (h : x.Preserves P) (hok : ∀ s, P s → ∃ a, (run x s).1 = .ok a) :
    x.Confined P E := by
  refine ⟨h, fun s hs e he ↦ ?_⟩
  obtain ⟨a, ha⟩ := hok s hs
  rw [ha] at he
  cases he

namespace Confined

/-- A computation that may fail with nothing returns. -/
theorem exists_ok (hx : x.Confined P fun _ ↦ False) {s : σ} (hs : P s) :
    ∃ a t, P t ∧ run x s = (.ok a, t) := by
  have ht := hx.preserves s hs
  rcases hr : run x s with ⟨e | a, t⟩
  · exact (hx.raises s hs e (congrArg Prod.fst hr)).elim
  · rw [hr] at ht
    exact ⟨a, t, ht, rfl⟩

theorem of_run_eq {y : Action σ ε α} (hy : y.Confined P E) (h : ∀ s, run x s = run y s) :
    x.Confined P E := by
  refine ⟨fun s hs ↦ ?_, fun s hs e he ↦ ?_⟩
  · rw [h]
    exact hy.preserves s hs
  · rw [h] at he
    exact hy.raises s hs e he

theorem pure (a : α) : (pure a : Action σ ε α).Confined P E :=
  Preserves.confined_of_ok (.pure a) fun _ _ ↦ ⟨a, rfl⟩

theorem throw {e : ε} (he : E e) : (throw e : Action σ ε α).Confined P E := by
  refine ⟨.throw e, fun s hs e' h ↦ ?_⟩
  cases h
  exact he

theorem get : (get : Action σ ε σ).Confined P E :=
  Preserves.confined_of_ok .get fun s _ ↦ ⟨s, rfl⟩

theorem modify {f : σ → σ} (hf : ∀ s, P s → P (f s)) :
    (modify f : Action σ ε PUnit).Confined P E :=
  Preserves.confined_of_ok (.modify hf) fun _ _ ↦ ⟨⟨⟩, rfl⟩

theorem report (level : Level) (text : String) :
    (report level text : Action σ ε Unit).Confined P E :=
  Preserves.confined_of_ok (.report level text) fun _ _ ↦ ⟨(), rfl⟩

theorem ofExcept {r : Except ε α} (h : ∀ e, r = .error e → E e) :
    (ofExcept r : Action σ ε α).Confined P E := by
  cases r with
  | ok a => exact .pure a
  | error e => exact .throw (h e rfl)

/-- What follows a computation only meets its answers. -/
theorem bind_of_run {f : α → Action σ ε β} (hx : x.Confined P E)
    (hf : ∀ s a t, P s → run x s = (.ok a, t) → (f a).Confined P E) : (x >>= f).Confined P E := by
  constructor
  · intro s hs
    have ht := hx.preserves s hs
    rw [run_bind]
    rcases hr : run x s with ⟨_ | a, t⟩
    · rwa [hr] at ht
    · rw [hr] at ht
      exact (hf s a t hs hr).preserves t ht
  · intro s hs e he
    have ht := hx.preserves s hs
    rw [run_bind] at he
    rcases hr : run x s with ⟨e' | a, t⟩
    · rw [hr] at he
      cases he
      exact hx.raises s hs e (by rw [hr])
    · rw [hr] at ht he
      exact (hf s a t hs hr).raises t ht e he

theorem bind {f : α → Action σ ε β} (hx : x.Confined P E) (hf : ∀ a, (f a).Confined P E) :
    (x >>= f).Confined P E :=
  hx.bind_of_run fun _ a _ _ _ ↦ hf a

theorem guard {c : Prop} [Decidable c] {e : ε} {f : PUnit → Action σ ε α} (he : c → E e)
    (hf : ¬ c → (f ⟨⟩).Confined P E) :
    Action.Confined P E (if c then MonadExcept.throw e >>= f else f ⟨⟩) := by
  split <;> rename_i hc
  · exact .of_run_eq (.throw (he hc)) fun _ ↦ rfl
  · exact hf hc

/-- What follows an attempt meets the errors that the attempt is confined to. -/
theorem attempt {f : Except ε α → Action σ δ β} (hx : x.Confined P E)
    (hok : ∀ a, (f (.ok a)).Confined P D) (herror : ∀ e, E e → (f (.error e)).Confined P D) :
    ((x.attempt : Action σ δ _) >>= f).Confined P D := by
  refine bind_of_run (Preserves.confined_of_ok hx.preserves.attempt fun s _ ↦ ⟨_, rfl⟩) ?_
  intro s r t hs hr
  cases r with
  | ok a => exact hok a
  | error e => exact herror e (hx.raises s hs e (congrArg Prod.fst (run_attempt_eq_ok.mp hr)))

theorem mapError {f : ε → δ} (hx : x.Confined P E) (hf : ∀ e, E e → D (f e)) :
    (x.mapError f).Confined P D := by
  refine ⟨.mapError f hx.preserves, fun s hs e he ↦ ?_⟩
  rw [run_mapError] at he
  cases hr : (run x s).1 with
  | ok a =>
    rw [hr] at he
    cases he
  | error e' =>
    rw [hr] at he
    cases he
    exact hf e' (hx.raises s hs e' hr)

theorem focus {Q : τ → Prop} {part : τ → σ} {replace : σ → τ → τ} (hx : x.Confined P E)
    (hpart : ∀ t, Q t → P (part t)) (hreplace : ∀ s t, P s → Q t → Q (replace s t)) :
    (x.focus part replace).Confined Q E := by
  refine ⟨.focus hx.preserves hpart hreplace, fun t ht e he ↦ ?_⟩
  rw [run_focus] at he
  exact hx.raises (part t) (hpart t ht) e he

/-- A computation that starts in a state of its own leaves the present one alone. -/
theorem within {Q : τ → Prop} {s : σ} (hx : x.Confined P E) (hs : P s) :
    (within s x : Action τ ε (α × σ)).Confined Q E := by
  constructor
  · intro t ht
    rwa [run_within]
  · intro t ht e he
    rw [run_within] at he
    cases hr : (run x s).1 with
    | ok a =>
      rw [hr] at he
      cases he
    | error e' =>
      rw [hr] at he
      cases he
      exact hx.raises s hs e hr

theorem foldl {f : β → α → Action σ ε β} {as : List α}
    (hf : ∀ b, ∀ a ∈ as, (f b a).Confined P E) (b : β) : (foldl f b as).Confined P E := by
  induction as generalizing b with
  | nil => exact .pure b
  | cons a as ih =>
    refine .of_run_eq (.bind (hf b a List.mem_cons_self) fun b ↦ ?_) (run_foldl_cons f b a as)
    exact ih (fun b a hm ↦ hf b a (List.mem_cons_of_mem _ hm)) b

theorem forEach {f : α → Action σ ε Unit} {as : List α} (hf : ∀ a ∈ as, (f a).Confined P E) :
    (forEach as f).Confined P E :=
  foldl (fun _ a hm ↦ hf a hm) ()

theorem repeatUpTo {step : β → Action σ ε (β ⊕ γ)} (hstep : ∀ b, (step b).Confined P E) (n : Nat)
    (b : β) : (repeatUpTo n step b).Confined P E := by
  induction n generalizing b with
  | zero => exact .pure _
  | succ n ih =>
    refine .of_run_eq (.bind (hstep b) fun next ↦ ?_) (run_repeatUpTo_succ step n b)
    cases next with
    | inl b => exact ih b
    | inr c => exact .pure _

end Confined

end Action

end Hunks
