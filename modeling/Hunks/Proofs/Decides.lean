import Mathlib
import Hunks.Proofs.Confined

namespace Hunks

namespace Action

variable {σ ε δ α β : Type} {P : σ → Prop} {E : ε → Prop} {D : δ → Prop} {Q : α → Prop}
  {c d : Prop} {x : Action σ ε α}

/-- How a computation ends that fails unless a condition holds. -/
inductive Settled (P : σ → Prop) (E : ε → Prop) (c : Prop) (Q : α → Prop) : Except ε α × σ → Prop
  | ok {a : α} {s : σ} : c → Q a → P s → Settled P E c Q (.ok a, s)
  | error {e : ε} {s : σ} : ¬ c → E e → P s → Settled P E c Q (.error e, s)

/-- Where a property of states holds before a computation, a condition decides if it returns. The property
holds after it, what is returned has a property, and so has an error. -/
def Decides (P : σ → Prop) (E : ε → Prop) (c : Prop) (Q : α → Prop) (x : Action σ ε α) : Prop :=
  ∀ s, P s → Settled P E c Q (run x s)

namespace Decides

theorem of_iff (h : x.Decides P E c Q) (hcd : c ↔ d) : x.Decides P E d Q :=
  propext hcd ▸ h

theorem of_run_eq {y : Action σ ε α} (h : y.Decides P E c Q) (hrun : ∀ s, run x s = run y s) :
    x.Decides P E c Q := by
  intro s hs
  rw [hrun]
  exact h s hs

theorem exists_ok (h : x.Decides P E c Q) (hc : c) {s : σ} (hs : P s) :
    ∃ a t, run x s = (.ok a, t) ∧ Q a ∧ P t := by
  have hend := h s hs
  generalize hr : run x s = r at hend
  cases hend with
  | ok _ hq ht => exact ⟨_, _, rfl, hq, ht⟩
  | error hn => exact absurd hc hn

theorem pure {a : α} (ha : Q a) : Decides P E True Q (pure a : Action σ ε α) :=
  fun _ hs ↦ .ok trivial ha hs

/-- A computation that fails with nothing. -/
theorem of_confined (hx : x.Confined P fun _ ↦ False) : x.Decides P E True fun _ ↦ True := by
  intro s hs
  obtain ⟨a, t, ht, hr⟩ := hx.exists_ok hs
  rw [hr]
  exact .ok trivial trivial ht

theorem bind {R : β → Prop} {f : α → Action σ ε β} (hx : x.Decides P E c Q)
    (hf : c → ∀ a, Q a → (f a).Decides P E d R) : (x >>= f).Decides P E (c ∧ d) R := by
  intro s hs
  have hend := hx s hs
  rw [run_bind]
  generalize run x s = r at hend
  cases hend with
  | ok hc hq ht => exact (hf hc _ hq).of_iff (and_iff_right hc).symm _ ht
  | error hc he ht => exact .error (fun h ↦ hc h.1) he ht

/-- What fails with nothing does not change what decides. -/
theorem bind_true {R : β → Prop} {f : α → Action σ ε β} (hx : x.Decides P E c Q)
    (hf : c → ∀ a, Q a → (f a).Decides P E True R) : (x >>= f).Decides P E c R :=
  (hx.bind hf).of_iff (and_iff_left trivial)

/-- What follows a computation that fails with nothing. -/
theorem bind_confined {R : β → Prop} {f : α → Action σ ε β} (hx : x.Confined P fun _ ↦ False)
    (hf : ∀ a, (f a).Decides P E d R) : (x >>= f).Decides P E d R :=
  (bind (of_confined hx) fun _ a _ ↦ hf a).of_iff (and_iff_right trivial)

/-- What follows a computation that can only return one value. -/
theorem bind_unique {R : β → Prop} {f : α → Action σ ε β} {d : α → Prop}
    (hx : x.Decides P E (∃ a, Q a) Q) (hunique : ∀ a b, Q a → Q b → a = b)
    (hf : ∀ a, Q a → (f a).Decides P E (d a) R) : (x >>= f).Decides P E (∃ a, Q a ∧ d a) R := by
  refine (hx.bind (d := ∃ a, Q a ∧ d a) fun _ a ha ↦ (hf a ha).of_iff ⟨fun h ↦ ⟨a, ha, h⟩, ?_⟩).of_iff ?_
  · rintro ⟨b, hb, h⟩
    rwa [hunique a b ha hb]
  · exact and_iff_right_of_imp fun ⟨a, ha, _⟩ ↦ ⟨a, ha⟩

theorem attempt {R : β → Prop} {f : Except ε α → Action σ δ β} (hx : x.Decides P E c Q)
    (hok : c → ∀ a, Q a → (f (.ok a)).Decides P D d R)
    (herror : ¬ c → ∀ e, E e → (f (.error e)).Decides P D d R) :
    ((x.attempt : Action σ δ _) >>= f).Decides P D d R := by
  intro s hs
  have hend := hx s hs
  rw [run_bind_ok (run_attempt x s)]
  generalize run x s = r at hend
  cases hend with
  | ok hc hq ht => exact hok hc _ hq _ ht
  | error hc he ht => exact herror hc _ he _ ht

end Decides

end Action

end Hunks
