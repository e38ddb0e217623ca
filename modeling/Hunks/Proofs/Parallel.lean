import Mathlib
import Hunks.Proofs.Outcome

namespace Hunks

namespace Action

variable {σ τ ε δ α β γ κ : Type} {R S : σ → σ → Prop} {E E' : ε → ε → Prop} {D : δ → δ → Prop}
  {Q Q' : α → β → Prop} {x : Action σ ε α} {y : Action σ ε β}

/-- Two computations end in related states, either with related answers or with related errors. -/
inductive Akin (R : σ → σ → Prop) (E : ε → ε → Prop) (Q : α → β → Prop) :
    Except ε α × σ → Except ε β × σ → Prop
  | ok {a : α} {b : β} {s t : σ} : Q a b → R s t → Akin R E Q (.ok a, s) (.ok b, t)
  | error {e e' : ε} {s t : σ} : E e e' → R s t → Akin R E Q (.error e, s) (.error e', t)

namespace Akin

variable {p : Except ε α × σ} {q : Except ε β × σ}

theorem states (h : Akin R E Q p q) : R p.2 q.2 := by
  cases h with
  | ok hq hst => exact hst
  | error he hst => exact hst

theorem mono (h : Akin R E Q p q) (hR : ∀ s t, R s t → S s t) (hE : ∀ e e', E e e' → E' e e')
    (hQ : ∀ a b, Q a b → Q' a b) : Akin S E' Q' p q := by
  cases h with
  | ok hq hst => exact .ok (hQ _ _ hq) (hR _ _ hst)
  | error he hst => exact .error (hE _ _ he) (hR _ _ hst)

/-- What an answer of the first computation says about the second one. -/
theorem of_ok {a : α} {s : σ} (h : Akin R E Q (.ok a, s) q) : ∃ b t, q = (.ok b, t) ∧ Q a b ∧ R s t := by
  cases h with
  | ok hq hst => exact ⟨_, _, rfl, hq, hst⟩

theorem of_error {e : ε} {s : σ} (h : Akin R E Q (.error e, s) q) :
    ∃ e' t, q = (.error e', t) ∧ E e e' ∧ R s t := by
  cases h with
  | error he hst => exact ⟨_, _, rfl, he, hst⟩

theorem guard {c c' : Prop} [Decidable c] [Decidable c'] (hc : c ↔ c') {e e' : ε}
    {f : PUnit → Action σ ε α} {g : PUnit → Action σ ε β} {s t : σ} (he : c → E e e') (hst : R s t)
    (hf : ¬ c → Akin R E Q (run (f ⟨⟩) s) (run (g ⟨⟩) t)) :
    Akin R E Q (run (if c then throw e >>= f else f ⟨⟩) s)
      (run (if c' then throw e' >>= g else g ⟨⟩) t) := by
  by_cases h : c
  · rw [if_pos h, if_pos (hc.mp h)]
    exact .error (he h) hst
  · rw [if_neg h, if_neg (mt hc.mpr h)]
    exact hf h

end Akin

/-- Two results are related answers or related errors. -/
inductive Kindred (E : ε → ε → Prop) (Q : α → β → Prop) : Except ε α → Except ε β → Prop
  | ok {a : α} {b : β} : Q a b → Kindred E Q (.ok a) (.ok b)
  | error {e e' : ε} : E e e' → Kindred E Q (.error e) (.error e')

namespace Kindred

theorem refl {r : Except ε α} (h : ∀ e, E e e) : Kindred E Eq r r := by
  cases r with
  | error e => exact .error (h e)
  | ok a => exact .ok rfl

theorem mono {r : Except ε α} {r' : Except ε β} (h : Kindred E Q r r') (hE : ∀ e e', E e e' → E' e e')
    (hQ : ∀ a b, Q a b → Q' a b) : Kindred E' Q' r r' := by
  cases h with
  | ok hq => exact .ok (hQ _ _ hq)
  | error he => exact .error (hE _ _ he)

theorem akin {r : Except ε α} {r' : Except ε β} (h : Kindred E Q r r') {s t : σ} (hst : R s t) :
    Akin R E Q (r, s) (r', t) := by
  cases h with
  | ok hq => exact .ok hq hst
  | error he => exact .error he hst

theorem bind {Q' : γ → κ → Prop} {r : Except ε α} {r' : Except ε β} {f : α → Except ε γ}
    {g : β → Except ε κ} (h : Kindred E Q r r') (hf : ∀ a b, Q a b → Kindred E Q' (f a) (g b)) :
    Kindred E Q' (r >>= f) (r' >>= g) := by
  cases h with
  | ok hq => exact hf _ _ hq
  | error he => exact .error he

end Kindred

/-- Any runs of two computations that start in states of one relation are akin, in states of
another. -/
def Parallel (R S : σ → σ → Prop) (E : ε → ε → Prop) (Q : α → β → Prop) (x : Action σ ε α)
    (y : Action σ ε β) : Prop :=
  ∀ s t, R s t → Akin S E Q (run x s) (run y t)

namespace Parallel

theorem of_run_eq {x' : Action σ ε α} {y' : Action σ ε β} (h : Parallel R S E Q x y)
    (hx : ∀ s, run x' s = run x s) (hy : ∀ s, run y' s = run y s) : Parallel R S E Q x' y' := by
  intro s t hst
  rw [hx, hy]
  exact h s t hst

theorem of_imp {T : σ → σ → Prop} (h : Parallel S T E Q x y) (hRS : ∀ s t, R s t → S s t) :
    Parallel R T E Q x y :=
  fun s t hst ↦ h s t (hRS s t hst)

theorem mono (h : Parallel R S E Q x y) (hE : ∀ e e', E e e' → E' e e')
    (hQ : ∀ a b, Q a b → Q' a b) : Parallel R S E' Q' x y :=
  fun s t hst ↦ (h s t hst).mono (fun _ _ hr ↦ hr) hE hQ

theorem pure {a : α} {b : β} (h : Q a b) :
    Parallel R R E Q (pure a : Action σ ε α) (pure b : Action σ ε β) :=
  fun _ _ hst ↦ .ok h hst

theorem throw {e e' : ε} (he : E e e') :
    Parallel R R E Q (throw e : Action σ ε α) (throw e' : Action σ ε β) :=
  fun _ _ hst ↦ .error he hst

theorem modify {f g : σ → σ} (hf : ∀ s t, R s t → S (f s) (g t)) :
    Parallel R S E Eq (modify f : Action σ ε PUnit) (modify g : Action σ ε PUnit) :=
  fun s t hst ↦ .ok rfl (hf s t hst)

theorem report (level level' : Level) (text text' : String) :
    Parallel R R E Eq (report level text : Action σ ε Unit) (report level' text' : Action σ ε Unit) :=
  fun _ _ hst ↦ .ok rfl hst

theorem tell (log log' : Log) :
    Parallel R R E Eq (tell log : Action σ ε Unit) (tell log' : Action σ ε Unit) :=
  fun _ _ hst ↦ .ok rfl hst

theorem guard {c c' : Prop} [Decidable c] [Decidable c'] (hc : c ↔ c') {e e' : ε}
    {f : PUnit → Action σ ε α} {g : PUnit → Action σ ε β} (he : c → E e e')
    (hf : ¬ c → Parallel R R E Q (f ⟨⟩) (g ⟨⟩)) :
    Parallel R R E Q (if c then MonadExcept.throw e >>= f else f ⟨⟩)
      (if c' then MonadExcept.throw e' >>= g else g ⟨⟩) :=
  fun s t hst ↦ .guard hc he hst fun h ↦ hf h s t hst

theorem ofExcept {r : Except ε α} {r' : Except ε β} (h : Kindred E Q r r') :
    Parallel R R E Q (ofExcept r : Action σ ε α) (ofExcept r' : Action σ ε β) := by
  cases h with
  | ok hq => exact pure hq
  | error he => exact throw he

/-- What follows a computation only meets its answers. -/
theorem bind_of_run {Q' : γ → κ → Prop} {f : α → Action σ ε γ} {g : β → Action σ ε κ}
    (hx : Parallel R R E Q x y) (hRS : ∀ s t, R s t → S s t)
    (hf : ∀ s t a b s' t', R s t → run x s = (.ok a, s') → run y t = (.ok b, t') → Q a b →
      Parallel R S E Q' (f a) (g b)) : Parallel R S E Q' (x >>= f) (y >>= g) := by
  intro s t hst
  have hend := hx s t hst
  rw [run_bind, run_bind]
  rcases hs : run x s with ⟨r, s'⟩
  rcases ht : run y t with ⟨r', t'⟩
  rw [hs, ht] at hend
  cases hend with
  | ok hab hst' => exact hf s t _ _ s' t' hst hs ht hab s' t' hst'
  | error he hst' => exact .error he (hRS _ _ hst')

theorem bind {Q' : γ → κ → Prop} {f : α → Action σ ε γ} {g : β → Action σ ε κ}
    (hx : Parallel R R E Q x y) (hf : ∀ a b, Q a b → Parallel R R E Q' (f a) (g b)) :
    Parallel R R E Q' (x >>= f) (y >>= g) :=
  hx.bind_of_run (fun _ _ h ↦ h) fun _ _ a b _ _ _ _ _ ↦ hf a b

theorem map {Q' : γ → κ → Prop} {f : α → γ} {g : β → κ} (hx : Parallel R S E Q x y)
    (hf : ∀ a b, Q a b → Q' (f a) (g b)) : Parallel R S E Q' (f <$> x) (g <$> y) := by
  intro s t hst
  have hend := hx s t hst
  rw [run_map, run_map]
  generalize run x s = p at hend
  generalize run y t = q at hend
  cases hend with
  | ok hab hst' => exact .ok (hf _ _ hab) hst'
  | error he hst' => exact .error he hst'

/-- What follows an attempt meets the errors of the attempt as values. -/
theorem attempt {Q' : γ → κ → Prop} {f : Except ε α → Action σ δ γ} {g : Except ε β → Action σ δ κ}
    (hx : Parallel R R E Q x y) (hok : ∀ a b, Q a b → Parallel R R D Q' (f (.ok a)) (g (.ok b)))
    (herror : ∀ e e', E e e' → Parallel R R D Q' (f (.error e)) (g (.error e'))) :
    Parallel R R D Q' ((x.attempt : Action σ δ _) >>= f) ((y.attempt : Action σ δ _) >>= g) := by
  intro s t hst
  have hend := hx s t hst
  rw [run_bind_ok (run_attempt x s), run_bind_ok (run_attempt y t)]
  generalize run x s = p at hend
  generalize run y t = q at hend
  cases hend with
  | ok hab hst' => exact hok _ _ hab _ _ hst'
  | error he hst' => exact herror _ _ he _ _ hst'

theorem mapError {f : ε → δ} (hx : Parallel R S E Q x y) (hf : ∀ e e', E e e' → D (f e) (f e')) :
    Parallel R S D Q (x.mapError f) (y.mapError f) := by
  intro s t hst
  have hend := hx s t hst
  rw [run_mapError, run_mapError]
  generalize run x s = p at hend
  generalize run y t = q at hend
  cases hend with
  | ok hab hst' => exact .ok hab hst'
  | error he hst' => exact .error (hf _ _ he) hst'

theorem focus {T : τ → τ → Prop} {part : τ → σ} {replace : σ → τ → τ} (hx : Parallel R R E Q x y)
    (hpart : ∀ s t, T s t → R (part s) (part t))
    (hreplace : ∀ a b s t, R a b → T s t → T (replace a s) (replace b t)) :
    Parallel T T E Q (x.focus part replace) (y.focus part replace) := by
  intro s t hst
  have hend := hx _ _ (hpart s t hst)
  rw [run_focus, run_focus]
  generalize run x (part s) = p at hend
  generalize run y (part t) = q at hend
  cases hend with
  | ok hq hab => exact .ok hq (hreplace _ _ s t hab hst)
  | error he hab => exact .error he (hreplace _ _ s t hab hst)

/-- Computations in states of their own leave the present ones alone. -/
theorem within {T : τ → τ → Prop} {s t : σ} (hx : Parallel R R E Q x y) (hst : R s t) :
    Parallel T T E (fun p q ↦ Q p.1 q.1 ∧ R p.2 q.2) (within s x : Action τ ε (α × σ))
      (within t y : Action τ ε (β × σ)) := by
  intro u v huv
  have hend := hx s t hst
  rw [run_within, run_within]
  generalize run x s = p at hend
  generalize run y t = q at hend
  cases hend with
  | ok hq hab => exact .ok ⟨hq, hab⟩ huv
  | error he hab => exact .error he huv

theorem foldl {P : γ → κ → Prop} {f : α → γ → Action σ ε α} {g : β → κ → Action σ ε β}
    {cs : List γ} {ks : List κ} (h : List.Forall₂ P cs ks)
    (hf : ∀ a b c k, Q a b → P c k → Parallel R R E Q (f a c) (g b k)) {a : α} {b : β} (hab : Q a b) :
    Parallel R R E Q (foldl f a cs) (foldl g b ks) := by
  induction h generalizing a b with
  | nil => exact pure hab
  | cons hck _ ih =>
    refine .of_run_eq (.bind (hf a b _ _ hab hck) fun a b hab ↦ ih hab) ?_ ?_
    · exact run_foldl_cons f a _ _
    · exact run_foldl_cons g b _ _

/-- Two loops that append one result for each element. -/
theorem foldl_push {P : γ → κ → Prop} {f : Array α → γ → Action σ ε (Array α)}
    {g : Array β → κ → Action σ ε (Array β)} {cs : List γ} {ks : List κ} (h : List.Forall₂ P cs ks)
    (hf : ∀ found found' c k, P c k → Parallel R R E
      (fun next next' ↦ ∃ a b, Q a b ∧ next = found.push a ∧ next' = found'.push b) (f found c)
      (g found' k)) :
    Parallel R R E (fun found found' ↦ List.Forall₂ Q found.toList found'.toList)
      (Action.foldl f #[] cs) (Action.foldl g #[] ks) := by
  refine foldl h (fun found found' c k hfound hck ↦ ?_) .nil
  refine (hf found found' c k hck).mono (fun _ _ he ↦ he) ?_
  rintro _ _ ⟨a, b, hab, rfl, rfl⟩
  rw [Array.toList_push, Array.toList_push]
  exact List.rel_append hfound (.cons hab .nil)

end Parallel

/-- Any two runs of a computation that start in related states end in such, with one answer or with
related errors. -/
def Abreast (R : σ → σ → Prop) (E : ε → ε → Prop) (x : Action σ ε α) : Prop :=
  Parallel R R E Eq x x

namespace Abreast

theorem of_run_eq {y : Action σ ε α} (hy : y.Abreast R E) (h : ∀ s, run x s = run y s) :
    x.Abreast R E :=
  Parallel.of_run_eq hy h h

theorem pure (a : α) : (pure a : Action σ ε α).Abreast R E :=
  Parallel.pure rfl

theorem throw {e : ε} (he : E e e) : (throw e : Action σ ε α).Abreast R E :=
  Parallel.throw he

theorem modify {f : σ → σ} (hf : ∀ s t, R s t → R (f s) (f t)) :
    (modify f : Action σ ε PUnit).Abreast R E :=
  Parallel.modify hf

theorem report (level : Level) (text : String) : (report level text : Action σ ε Unit).Abreast R E :=
  Parallel.report _ _ _ _

theorem bind_of_run {f : α → Action σ ε β} (hx : x.Abreast R E)
    (hf : ∀ s t a s', R s t → run x s = (.ok a, s') → (f a).Abreast R E) :
    (x >>= f).Abreast R E := by
  refine Parallel.bind_of_run hx (fun _ _ h ↦ h) fun s t a _ s' _ hst hs _ hab ↦ ?_
  subst hab
  exact hf s t a s' hst hs

theorem bind {f : α → Action σ ε β} (hx : x.Abreast R E) (hf : ∀ a, (f a).Abreast R E) :
    (x >>= f).Abreast R E :=
  hx.bind_of_run fun _ _ a _ _ _ ↦ hf a

/-- A computation may read what related states agree on. -/
theorem get_bind {f : σ → Action σ ε β} (heq : ∀ s t, R s t → f s = f t)
    (hf : ∀ s, (f s).Abreast R E) : (get >>= f).Abreast R E := by
  intro s t hst
  rw [run_bind_ok (run_get s), run_bind_ok (run_get t), ← heq s t hst]
  exact hf s s t hst

theorem guard {c : Prop} [Decidable c] {e : ε} {f : PUnit → Action σ ε α} (he : c → E e e)
    (hf : ¬ c → (f ⟨⟩).Abreast R E) :
    Action.Abreast R E (if c then MonadExcept.throw e >>= f else f ⟨⟩) := by
  split <;> rename_i hc
  · exact .of_run_eq (.throw (he hc)) fun _ ↦ rfl
  · exact hf hc

theorem attempt {f : Except ε α → Action σ δ β} (hx : x.Abreast R E)
    (hok : ∀ a, (f (.ok a)).Abreast R D)
    (herror : ∀ e e', E e e' → Parallel R R D Eq (f (.error e)) (f (.error e'))) :
    ((x.attempt : Action σ δ _) >>= f).Abreast R D := by
  refine Parallel.attempt hx (fun a b hab ↦ ?_) herror
  subst hab
  exact hok a

theorem mapError {f : ε → δ} (hx : x.Abreast R E) (hf : ∀ e e', E e e' → D (f e) (f e')) :
    (x.mapError f).Abreast R D :=
  Parallel.mapError hx hf

theorem focus {T : τ → τ → Prop} {part : τ → σ} {replace : σ → τ → τ} (hx : x.Abreast R E)
    (hpart : ∀ s t, T s t → R (part s) (part t))
    (hreplace : ∀ a b s t, R a b → T s t → T (replace a s) (replace b t)) :
    (x.focus part replace).Abreast T E :=
  Parallel.focus hx hpart hreplace

theorem foldl {f : β → α → Action σ ε β} {as : List α} (hf : ∀ b, ∀ a ∈ as, (f b a).Abreast R E)
    (b : β) : (foldl f b as).Abreast R E := by
  have hsame : List.Forall₂ (fun a a' ↦ a = a' ∧ a ∈ as) as as :=
    List.forall₂_same.mpr fun a hm ↦ ⟨rfl, hm⟩
  refine Parallel.foldl hsame ?_ rfl
  rintro b _ a _ rfl ⟨rfl, hm⟩
  exact hf b a hm

theorem forEach {f : α → Action σ ε Unit} {as : List α} (hf : ∀ a ∈ as, (f a).Abreast R E) :
    (forEach as f).Abreast R E :=
  foldl (fun _ a hm ↦ hf a hm) ()

theorem repeatUpTo {step : β → Action σ ε (β ⊕ γ)} (hstep : ∀ b, (step b).Abreast R E) (n : Nat)
    (b : β) : (repeatUpTo n step b).Abreast R E := by
  induction n generalizing b with
  | zero => exact pure _
  | succ n ih =>
    refine .of_run_eq (.bind (hstep b) fun next ↦ ?_) (run_repeatUpTo_succ step n b)
    cases next with
    | inl b => exact ih b
    | inr c => exact pure _

end Abreast

end Action

end Hunks
