import Mathlib
import Hunks.Cursor
import Hunks.Proofs.Bytes
import Hunks.Proofs.Outcome

namespace Hunks

namespace Decoder

open Hunks.Action (run)

variable {α β γ : Type} {window : Window} {pos pos' : Int}

theorem bind_eq_ok {x : Decoder α} {f : α → Decoder β} {b : β} :
    run ((x >>= f) window) pos = (.ok b, pos') ↔
      ∃ a mid, run (x window) pos = (.ok a, mid) ∧ run (f a window) mid = (.ok b, pos') :=
  Action.run_bind_eq_ok

theorem pure_eq_ok {a b : α} :
    run ((pure a : Decoder α) window) pos = (.ok b, pos') ↔ a = b ∧ pos = pos' := by
  show run (pure a : Action Int ParseError α) pos = _ ↔ _
  simp

theorem map_eq_ok {x : Decoder α} {f : α → β} {b : β} :
    run ((f <$> x) window) pos = (.ok b, pos') ↔
      ∃ a, run (x window) pos = (.ok a, pos') ∧ f a = b :=
  Action.run_map_eq_ok

/-- Runs of a decoder one after the other, numbered from `i`. -/
inductive Times (x : Nat → Decoder α) (window : Window) : Nat → Int → List α → Int → Prop
  | nil (i : Nat) (pos : Int) : Times x window i pos [] pos
  | cons {i : Nat} {pos mid pos' : Int} {a : α} {as : List α} :
      run (x i window) pos = (.ok a, mid) → Times x window (i + 1) mid as pos' →
      Times x window i pos (a :: as) pos'

theorem timesAux_eq_ok {x : Nat → Decoder α} {n i : Nat} {done : Array α} {pos pos' : Int}
    {log : Log} {l : List α} :
    ((timesAux x window n i done pos log).result, (timesAux x window n i done pos log).state) =
      (.ok l, pos') ↔ ∃ as, l = done.toList ++ as ∧ as.length = n ∧ Times x window i pos as pos' := by
  induction n generalizing i done pos log with
  | zero =>
    simp only [timesAux, Prod.mk.injEq, Except.ok.injEq]
    constructor
    · rintro ⟨rfl, rfl⟩
      exact ⟨[], by simp, rfl, .nil i pos⟩
    · rintro ⟨as, rfl, has, ht⟩
      cases ht with
      | nil => simp
      | cons => simp at has
  | succ n ih =>
    have hx : run (x i window) pos = ((x i window pos).result, (x i window pos).state) := rfl
    simp only [timesAux]
    rcases hr : x i window pos with ⟨e | a, mid, more⟩
    · rw [hr] at hx
      constructor
      · intro h
        simp at h
      · rintro ⟨as, _, has, ht⟩
        cases ht with
        | nil => simp at has
        | cons ha => rw [hx] at ha; simp at ha
    · rw [hr] at hx
      simp only [ih]
      constructor
      · rintro ⟨as, rfl, has, ht⟩
        exact ⟨a :: as, by simp, by simp [has], .cons hx ht⟩
      · rintro ⟨as, rfl, has, ht⟩
        cases ht with
        | nil => simp at has
        | @cons _ _ _ _ a' as ha ht =>
          rw [hx] at ha
          simp only [Prod.mk.injEq, Except.ok.injEq] at ha
          obtain ⟨rfl, rfl⟩ := ha
          exact ⟨as, by simp, by simpa using has, ht⟩

theorem times_eq_ok {x : Nat → Decoder α} {n : Nat} {as : List α} :
    run (times n x window) pos = (.ok as, pos') ↔
      as.length = n ∧ Times x window 0 pos as pos' := by
  show ((timesAux x window n 0 #[] pos ∅).result, (timesAux x window n 0 #[] pos ∅).state) = _ ↔ _
  rw [timesAux_eq_ok]
  simp

/-- Runs of a decoder one after the other, up to one that answers `none`. -/
inductive Many (x : β → Decoder (Option (α × β))) (window : Window) :
    β → Int → List α → β → Int → Prop
  | stop {b : β} {pos pos' : Int} :
      run (x b window) pos = (.ok none, pos') → Many x window b pos [] b pos'
  | step {b b' c : β} {pos mid pos' : Int} {a : α} {as : List α} :
      run (x b window) pos = (.ok (some (a, b')), mid) → Many x window b' mid as c pos' →
      Many x window b pos (a :: as) c pos'

theorem manyAux_eq_ok {x : β → Decoder (Option (α × β))} {fuel : Nat} {b c : β} {done : Array α}
    {pos pos' : Int} {log : Log} {l : List α} :
    ((manyAux x window fuel b done pos log).result, (manyAux x window fuel b done pos log).state) =
      (.ok (l, c), pos') ↔
      ∃ as, l = done.toList ++ as ∧ as.length < fuel ∧ Many x window b pos as c pos' := by
  induction fuel generalizing b done pos log with
  | zero => simp [manyAux]
  | succ fuel ih =>
    have hx : run (x b window) pos = ((x b window pos).result, (x b window pos).state) := rfl
    simp only [manyAux]
    rcases hr : x b window pos with ⟨e | (_ | ⟨a, b'⟩), mid, more⟩
    · rw [hr] at hx
      constructor
      · intro h
        simp at h
      · rintro ⟨as, _, _, hm⟩
        cases hm with
        | stop h | step h => rw [hx] at h; simp at h
    · rw [hr] at hx
      simp only [Prod.mk.injEq, Except.ok.injEq]
      constructor
      · rintro ⟨⟨rfl, rfl⟩, rfl⟩
        exact ⟨[], by simp, by simp, .stop hx⟩
      · rintro ⟨as, rfl, _, hm⟩
        cases hm with
        | stop h => rw [hx] at h; simp_all
        | step h => rw [hx] at h; simp at h
    · rw [hr] at hx
      simp only [ih]
      constructor
      · rintro ⟨as, rfl, has, hm⟩
        exact ⟨a :: as, by simp, by simp [has], .step hx hm⟩
      · rintro ⟨as, rfl, has, hm⟩
        cases hm with
        | stop h => rw [hx] at h; simp at h
        | @step _ b₁ _ _ mid₁ _ a₁ as h hm =>
          rw [hx] at h
          simp only [Prod.mk.injEq, Except.ok.injEq, Option.some.injEq] at h
          obtain ⟨⟨rfl, rfl⟩, rfl⟩ := h
          exact ⟨as, by simp, by simpa using has, hm⟩

/-- Each answer of a repeated decoder is paid for by a byte of the window. -/
theorem manyWith_eq_ok {x : β → Decoder (Option (α × β))} {b c : β} {as : List α} :
    run (manyWith x b window) pos = (.ok (as, c), pos') ↔
      as.length ≤ (window.stop - pos).toNat ∧ Many x window b pos as c pos' := by
  show ((manyAux x window ((window.stop - pos).toNat + 1) b #[] pos ∅).result,
    (manyAux x window ((window.stop - pos).toNat + 1) b #[] pos ∅).state) = _ ↔ _
  rw [manyAux_eq_ok]
  simp

/-- Whatever a decoder returns, from any place of any window, has a property. -/
def Yields (x : Decoder α) (P : α → Prop) : Prop :=
  ∀ window pos a pos', run (x window) pos = (.ok a, pos') → P a

namespace Yields

variable {P : α → Prop} {Q : β → Prop}

theorem bind {x : Decoder α} {f : α → Decoder β} (hx : Yields x P)
    (hf : ∀ a, P a → Yields (f a) Q) : Yields (x >>= f) Q := by
  intro window pos b pos' h
  obtain ⟨a, mid, ha, hb⟩ := bind_eq_ok.mp h
  exact hf a (hx _ _ _ _ ha) _ _ _ _ hb

theorem pure {a : α} (h : P a) : Yields (Pure.pure a) P := by
  intro window pos b pos' hr
  obtain ⟨rfl, _⟩ := pure_eq_ok.mp hr
  exact h

theorem map {x : Decoder α} {f : α → β} (hx : Yields x fun a ↦ Q (f a)) : Yields (f <$> x) Q := by
  intro window pos b pos' h
  obtain ⟨a, ha, rfl⟩ := map_eq_ok.mp h
  exact hx _ _ _ _ ha

theorem mono {x : Decoder α} {P' : α → Prop} (hx : Yields x P) (h : ∀ a, P a → P' a) :
    Yields x P' := fun _ _ a _ hr ↦ h a (hx _ _ _ _ hr)

theorem any (x : Decoder α) : Yields x fun _ ↦ True := fun _ _ _ _ _ ↦ trivial

theorem fail {e : ParseError} : Yields (throw e : Decoder α) P := by
  intro window pos a pos' h
  cases h

theorem ite {c : Prop} [Decidable c] {x y : Decoder α} (hx : c → Yields x P)
    (hy : ¬ c → Yields y P) : Yields (if c then x else y) P := by
  split
  · exact hx ‹_›
  · exact hy ‹_›

theorem times {x : Nat → Decoder α} {n : Nat} (hx : ∀ i, Yields (x i) P) :
    Yields (times n x) fun as ↦ as.length = n ∧ ∀ a ∈ as, P a := by
  intro window pos as pos' h
  obtain ⟨hn, ht⟩ := times_eq_ok.mp h
  refine ⟨hn, ?_⟩
  clear hn h
  generalize 0 = i at ht
  induction ht with
  | nil => simp
  | cons ha _ ih => exact List.forall_mem_cons.mpr ⟨hx _ _ _ _ _ ha, ih⟩

theorem manyWith {x : β → Decoder (Option (α × β))} {b : β}
    (hx : ∀ b, Yields (x b) fun r ↦ ∀ p ∈ r, P p.1) :
    Yields (manyWith x b) fun p ↦ ∀ a ∈ p.1, P a := by
  rintro window pos ⟨as, c⟩ pos' h
  have hm := (manyWith_eq_ok.mp h).2
  clear h
  show ∀ a ∈ as, P a
  induction hm with
  | stop => simp
  | step ha _ ih => exact List.forall_mem_cons.mpr ⟨hx _ _ _ _ _ ha _ rfl, ih⟩

theorem many {x : Decoder (Option α)} (hx : Yields x fun r ↦ ∀ a ∈ r, P a) :
    Yields (many x) fun as ↦ ∀ a ∈ as, P a := by
  refine map (manyWith fun _ ↦ hx.bind fun r hr ↦ pure ?_)
  cases r with
  | none => simp
  | some a => simpa using hr

end Yields

theorem take_yields (size : Int) :
    Yields (take size) fun bytes ↦ 0 ≤ size ∧ (bytes.length : Int) = size := by
  intro window pos bytes pos' h
  simp only [run, take] at h
  split at h
  · simp at h
  · split at h <;> rename_i hr
    · simp only [Prod.mk.injEq, Except.ok.injEq] at h
      obtain ⟨rfl, _⟩ := h
      simp only [Window.range] at hr
      split at hr <;> rename_i hc
      · simp at hr
      · simp only [not_or, Int.not_lt] at hc
        rw [← Except.ok.inj hr, Array.length_toList, Array.size_extract]
        omega
    · simp at h

/-- The bytes that a window shows at a place. -/
theorem take_eq_ok {size : Int} {bytes : List UInt8} :
    run (take size window) pos = (.ok bytes, pos') ↔
      0 ≤ pos ∧ 0 ≤ size ∧ pos + size ≤ window.stop ∧ pos + size ≤ window.data.size ∧
        pos' = pos + size ∧ bytes = (window.data.extract pos.toNat (pos + size).toNat).toList := by
  simp only [run, take, Window.range]
  split
  · simp only [Prod.mk.injEq, reduceCtorEq, false_and, false_iff]
    omega
  · split <;> rename_i hr
    · split at hr
      · simp at hr
      · cases hr
        simp only [Prod.mk.injEq, Except.ok.injEq]
        constructor
        · rintro ⟨rfl, rfl⟩
          exact ⟨by omega, by omega, by omega, by omega, rfl, rfl⟩
        · rintro ⟨-, -, -, -, rfl, rfl⟩
          exact ⟨rfl, rfl⟩
    · split at hr
      · simp only [Prod.mk.injEq, reduceCtorEq, false_and, false_iff]
        omega
      · cases hr

theorem number_yields (size : Nat) : Yields (number size) fun n ↦ n < 2 ^ (8 * size) := by
  refine (take_yields size).bind fun bytes hb ↦ .pure ?_
  have h := Bytes.toNat_lt bytes
  rwa [show bytes.length = size by omega, Bytes.modulus_eq] at h

theorem short_yields : Yields short fun n ↦ n < 2 ^ 16 := number_yields 2

theorem word_yields : Yields word fun n ↦ n < 2 ^ 32 := number_yields 4

end Decoder

end Hunks
