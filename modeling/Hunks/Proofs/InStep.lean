import Mathlib
import Hunks.Proofs.Confined
import Hunks.Proofs.Parallel

namespace Hunks

namespace Action

variable {σ τ ε δ α β γ κ : Type} {R S : σ → σ → Prop} {E : ε → Prop} {D : δ → Prop}
  {Q : α → β → Prop} {x : Action σ ε α} {y : Action σ ε β}

/-- From related states a computation comes to related states, whatever its results. -/
def Relates (R : σ → σ → Prop) (x : Action σ ε α) : Prop :=
  ∀ s t, R s t → R (run x s).2 (run x t).2

/-- States that have one of several properties in common. -/
def Common {ι : Type} (P : ι → σ → Prop) (s t : σ) : Prop :=
  ∃ i, P i s ∧ P i t

theorem Relates.of_preserves {ι : Type} {P : ι → σ → Prop} (h : ∀ i, x.Preserves (P i)) :
    x.Relates (Common P) := by
  intro s t hst
  obtain ⟨i, hs, ht⟩ := hst
  exact ⟨i, h i s hs, h i t ht⟩

/-- Two computations end in related states, either with related answers or with one error, which has
a property. -/
inductive Agree (R : σ → σ → Prop) (E : ε → Prop) (Q : α → β → Prop) :
    Except ε α × σ → Except ε β × σ → Prop
  | ok {a : α} {b : β} {s t : σ} : Q a b → R s t → Agree R E Q (.ok a, s) (.ok b, t)
  | error {e : ε} {s t : σ} : E e → R s t → Agree R E Q (.error e, s) (.error e, t)

namespace Agree

theorem states {p : Except ε α × σ} {q : Except ε β × σ} (h : Agree R E Q p q) : R p.2 q.2 := by
  cases h with
  | ok hab h => exact h
  | error he h => exact h

theorem raises {p : Except ε α × σ} {q : Except ε β × σ} (h : Agree R E Q p q) {e : ε}
    (he : p.1 = .error e) : E e := by
  cases h with
  | ok hab h => cases he
  | error he' h =>
    cases he
    exact he'

theorem error_iff {p : Except ε α × σ} {q : Except ε β × σ} (h : Agree R E Q p q) (e : ε) :
    p.1 = .error e ↔ q.1 = .error e := by
  cases h with
  | ok hab h => simp
  | error he h => simp

theorem result_eq {p q : Except ε α × σ} (h : Agree R E Eq p q) : p.1 = q.1 := by
  cases h with
  | ok hab h => rw [hab]
  | error he h => rfl

theorem of_result_eq {p q : Except ε α × σ} (hr : p.1 = q.1) (hs : R p.2 q.2)
    (he : ∀ e, p.1 = .error e → E e) : Agree R E Eq p q := by
  rcases p with ⟨r, s⟩
  rcases q with ⟨_, t⟩
  obtain rfl : r = _ := hr
  cases r with
  | ok a => exact .ok rfl hs
  | error e => exact .error (he e rfl) hs

end Agree

/-- One error twice, which has a property. -/
def Shared (E : ε → Prop) (e e' : ε) : Prop :=
  e = e' ∧ E e

theorem agree_iff {p : Except ε α × σ} {q : Except ε β × σ} :
    Agree R E Q p q ↔ Akin R (Shared E) Q p q := by
  constructor
  · intro h
    cases h with
    | ok hab hst => exact .ok hab hst
    | error he hst => exact .error ⟨rfl, he⟩ hst
  · intro h
    cases h with
    | ok hab hst => exact .ok hab hst
    | error he hst =>
      obtain ⟨rfl, he⟩ := he
      exact .error he hst

/-- Any runs of two computations that start in states of one relation agree, in states of another. -/
def Tandem (R S : σ → σ → Prop) (E : ε → Prop) (Q : α → β → Prop) (x : Action σ ε α)
    (y : Action σ ε β) : Prop :=
  ∀ s t, R s t → Agree S E Q (run x s) (run y t)

theorem tandem_iff : Tandem R S E Q x y ↔ Parallel R S (Shared E) Q x y :=
  forall₃_congr fun _ _ _ ↦ agree_iff

namespace Tandem

theorem pure {a : α} {b : β} (h : Q a b) :
    Tandem R R E Q (pure a : Action σ ε α) (pure b : Action σ ε β) :=
  fun _ _ hst ↦ .ok h hst

theorem throw {e : ε} (he : E e) :
    Tandem R R E Q (throw e : Action σ ε α) (throw e : Action σ ε β) :=
  fun _ _ hst ↦ .error he hst

/-- What follows a computation only meets its answers. -/
theorem bind_of_run {Q' : γ → κ → Prop} {f : α → Action σ ε γ} {g : β → Action σ ε κ}
    (hx : Tandem R R E Q x y) (hRS : ∀ s t, R s t → S s t)
    (hf : ∀ s t a b s' t', R s t → run x s = (.ok a, s') → run y t = (.ok b, t') → Q a b →
      Tandem R S E Q' (f a) (g b)) : Tandem R S E Q' (x >>= f) (y >>= g) :=
  tandem_iff.mpr (.bind_of_run (tandem_iff.mp hx) hRS fun s t a b s' t' hst hs ht hab ↦
    tandem_iff.mp (hf s t a b s' t' hst hs ht hab))

theorem bind {Q' : γ → κ → Prop} {f : α → Action σ ε γ} {g : β → Action σ ε κ}
    (hx : Tandem R R E Q x y) (hf : ∀ a b, Q a b → Tandem R R E Q' (f a) (g b)) :
    Tandem R R E Q' (x >>= f) (y >>= g) :=
  hx.bind_of_run (fun _ _ h ↦ h) fun _ _ a b _ _ _ _ _ ↦ hf a b

theorem of_imp {T : σ → σ → Prop} (hx : Tandem S T E Q x y) (hRS : ∀ s t, R s t → S s t) :
    Tandem R T E Q x y :=
  fun s t hst ↦ hx s t (hRS s t hst)

/-- Computations that never fail and keep what two states have in common. -/
theorem of_confined {ι : Type} {P : ι → σ → Prop} (hQ : ∀ a b, Q a b)
    (hx : ∀ i, x.Confined (P i) fun _ ↦ False) (hy : ∀ i, y.Confined (P i) fun _ ↦ False) :
    Tandem (Common P) (Common P) E Q x y := by
  rintro s t ⟨i, hs, ht⟩
  obtain ⟨a, s', hs', hrs⟩ := (hx i).exists_ok hs
  obtain ⟨b, t', ht', hrt⟩ := (hy i).exists_ok ht
  rw [hrs, hrt]
  exact .ok (hQ a b) ⟨i, hs', ht'⟩

theorem bind_confined {ι : Type} {P : ι → σ → Prop} {Q : α → α → Prop} {f : α → Action σ ε γ}
    (hx : Tandem (Common P) (Common P) E Q x x) (hf : ∀ i a, (f a).Confined (P i) fun _ ↦ False) :
    Tandem (Common P) (Common P) E (fun _ _ ↦ True) (x >>= f) (x >>= f) :=
  hx.bind fun a b _ ↦ of_confined (fun _ _ ↦ trivial) (fun i ↦ hf i a) fun i ↦ hf i b

theorem mapError {f : ε → δ} (hx : Tandem R S E Q x y) (hf : ∀ e, E e → D (f e)) :
    Tandem R S D Q (x.mapError f) (y.mapError f) :=
  tandem_iff.mpr (.mapError (tandem_iff.mp hx) fun e _ he ↦ ⟨congrArg f he.1, hf e he.2⟩)

theorem focus {T : τ → τ → Prop} {part : τ → σ} {replace : σ → τ → τ} (hx : Tandem R R E Q x y)
    (hpart : ∀ s t, T s t → R (part s) (part t))
    (hreplace : ∀ a b s t, R a b → T s t → T (replace a s) (replace b t)) :
    Tandem T T E Q (x.focus part replace) (y.focus part replace) :=
  tandem_iff.mpr (.focus (tandem_iff.mp hx) hpart hreplace)

theorem forEach {f g : α → Action σ ε Unit} {as : List α}
    (h : ∀ a ∈ as, Tandem R R E (fun _ _ ↦ True) (f a) (g a)) :
    Tandem R R E (fun _ _ ↦ True) (forEach as f) (forEach as g) := by
  have hsame : List.Forall₂ (fun a a' ↦ a = a' ∧ a ∈ as) as as :=
    List.forall₂_same.mpr fun a hm ↦ ⟨rfl, hm⟩
  refine tandem_iff.mpr (.foldl hsame ?_ trivial)
  rintro - - a _ - ⟨rfl, hm⟩
  exact tandem_iff.mp (h a hm)

end Tandem

/-- Any two runs of a computation that start in states of one relation end alike, in states of
another. -/
def Coupled (R S : σ → σ → Prop) (E : ε → Prop) (x : Action σ ε α) : Prop :=
  Tandem R S E Eq x x

/-- Any two runs of a computation that start in related states end alike. -/
def InStep (R : σ → σ → Prop) (E : ε → Prop) (x : Action σ ε α) : Prop :=
  Tandem R R E Eq x x

theorem inStep_iff {E : ε → Prop} : x.InStep R E ↔ x.Abreast R (Shared E) :=
  tandem_iff

/-- If nothing but one error is related to itself, computations abreast are in step. -/
theorem Abreast.inStep {F : ε → ε → Prop} (hx : x.Abreast R F) (hF : ∀ e e', F e e' → e = e' ∧ E e) :
    x.InStep R E :=
  inStep_iff.mpr (Parallel.mono hx hF fun _ _ h ↦ h)

namespace InStep

theorem relates (hx : x.InStep R E) : x.Relates R :=
  fun s t hst ↦ (hx s t hst).states

theorem abreast (hx : x.InStep R E) : x.Abreast R fun _ _ ↦ True :=
  Parallel.mono (inStep_iff.mp hx) (fun _ _ _ ↦ trivial) fun _ _ h ↦ h

/-- What two runs in step keep, one run keeps. -/
theorem confined {P : σ → Prop} (hx : x.InStep R E) (hin : ∀ s, P s → R s s)
    (hout : ∀ s t, R s t → P s) : x.Confined P E where
  preserves s hs := hout _ _ (hx s s (hin s hs)).states
  raises s hs _ he := (hx s s (hin s hs)).raises he

theorem of_run_eq {y : Action σ ε α} (hy : y.InStep R E) (h : ∀ s, run x s = run y s) :
    x.InStep R E :=
  inStep_iff.mpr (.of_run_eq (inStep_iff.mp hy) h)

theorem pure (a : α) : (pure a : Action σ ε α).InStep R E :=
  Tandem.pure rfl

theorem throw {e : ε} (he : E e) : (throw e : Action σ ε α).InStep R E :=
  Tandem.throw he

theorem modify {f : σ → σ} (hf : ∀ s t, R s t → R (f s) (f t)) :
    (modify f : Action σ ε PUnit).InStep R E :=
  fun s t hst ↦ .ok rfl (hf s t hst)

theorem report (level : Level) (text : String) : (report level text : Action σ ε Unit).InStep R E :=
  fun _ _ hst ↦ .ok rfl hst

theorem ofExcept {r : Except ε α} (h : ∀ e, r = .error e → E e) :
    (ofExcept r : Action σ ε α).InStep R E := by
  cases r with
  | ok a => exact pure a
  | error e => exact throw (h e rfl)

theorem bind_of_run {f : α → Action σ ε β} (hx : x.InStep R E)
    (hf : ∀ s t a s', R s t → run x s = (.ok a, s') → (f a).InStep R E) :
    (x >>= f).InStep R E :=
  inStep_iff.mpr (.bind_of_run (inStep_iff.mp hx) fun s t a s' hst hs ↦
    inStep_iff.mp (hf s t a s' hst hs))

theorem bind {f : α → Action σ ε β} (hx : x.InStep R E) (hf : ∀ a, (f a).InStep R E) :
    (x >>= f).InStep R E :=
  hx.bind_of_run fun _ _ a _ _ _ ↦ hf a

/-- A computation may read what related states agree on. -/
theorem get_bind {f : σ → Action σ ε β} (heq : ∀ s t, R s t → f s = f t)
    (hf : ∀ s, (f s).InStep R E) : (get >>= f).InStep R E :=
  inStep_iff.mpr (.get_bind heq fun s ↦ inStep_iff.mp (hf s))

theorem guard {c : Prop} [Decidable c] {e : ε} {f : PUnit → Action σ ε α} (he : c → E e)
    (hf : ¬ c → (f ⟨⟩).InStep R E) :
    Action.InStep R E (if c then MonadExcept.throw e >>= f else f ⟨⟩) :=
  inStep_iff.mpr (.guard (fun hc ↦ ⟨rfl, he hc⟩) fun hc ↦ inStep_iff.mp (hf hc))

/-- What follows an attempt meets the errors of the attempt as values. -/
theorem attempt {f : Except ε α → Action σ δ β} (hx : x.InStep R E)
    (hok : ∀ a, (f (.ok a)).InStep R D) (herror : ∀ e, E e → (f (.error e)).InStep R D) :
    ((x.attempt : Action σ δ _) >>= f).InStep R D := by
  refine inStep_iff.mpr (.attempt (inStep_iff.mp hx) (fun a ↦ inStep_iff.mp (hok a)) ?_)
  rintro e _ ⟨rfl, he⟩
  exact inStep_iff.mp (herror e he)

theorem mapError {f : ε → δ} (hx : x.InStep R E) (hf : ∀ e, E e → D (f e)) :
    (x.mapError f).InStep R D :=
  Tandem.mapError hx hf

theorem focus {T : τ → τ → Prop} {part : τ → σ} {replace : σ → τ → τ} (hx : x.InStep R E)
    (hpart : ∀ s t, T s t → R (part s) (part t))
    (hreplace : ∀ a b s t, R a b → T s t → T (replace a s) (replace b t)) :
    (x.focus part replace).InStep T E :=
  Tandem.focus hx hpart hreplace

/-- A computation in a state of its own leaves the present one alone. -/
theorem within {s : τ} {x : Action τ ε α} (h : ∀ e, (run x s).1 = .error e → E e) :
    (within s x : Action σ ε (α × τ)).InStep R E := by
  intro t u htu
  rw [run_within, run_within]
  cases hr : (run x s).1 with
  | ok a => exact .ok rfl htu
  | error e => exact .error (h e hr) htu

theorem foldl {f : β → α → Action σ ε β} {as : List α} (hf : ∀ b, ∀ a ∈ as, (f b a).InStep R E)
    (b : β) : (foldl f b as).InStep R E :=
  inStep_iff.mpr (.foldl (fun b a hm ↦ inStep_iff.mp (hf b a hm)) b)

theorem forEach {f : α → Action σ ε Unit} {as : List α} (hf : ∀ a ∈ as, (f a).InStep R E) :
    (forEach as f).InStep R E :=
  foldl (fun _ a hm ↦ hf a hm) ()

end InStep

end Action

end Hunks
