import Mathlib
import Hunks.Block.Decode
import Hunks.Proofs.Cursor

namespace Hunks

open Hunks.Action (run)

namespace Decoder

variable {α β : Type}

/-- What a decoder returns and the number of bytes it takes for that have a property. One that takes
any stays in front of the end of its window. -/
def Spends (x : Decoder α) (P : Nat → α → Prop) : Prop :=
  ∀ window pos a pos', run (x window) pos = (.ok a, pos') →
    ∃ n : Nat, pos' = pos + n ∧ (n = 0 ∨ pos' ≤ window.stop) ∧ P n a

namespace Spends

variable {P : Nat → α → Prop} {Q : Nat → β → Prop}

theorem bind {x : Decoder α} {f : α → Decoder β} (hx : Spends x P)
    (hf : ∀ a m, P m a → Spends (f a) fun n b ↦ Q (m + n) b) : Spends (x >>= f) Q := by
  intro window pos b pos' h
  obtain ⟨a, _, ha, hb⟩ := bind_eq_ok.mp h
  obtain ⟨m, rfl, hm, hP⟩ := hx _ _ _ _ ha
  obtain ⟨n, rfl, hn, hQ⟩ := hf a m hP _ _ _ _ hb
  exact ⟨m + n, by omega, by omega, hQ⟩

theorem pure {a : α} (h : P 0 a) : Spends (Pure.pure a) P := by
  intro window pos b pos' hr
  obtain ⟨rfl, rfl⟩ := pure_eq_ok.mp hr
  exact ⟨0, (Int.add_zero pos).symm, Or.inl rfl, h⟩

theorem map {x : Decoder α} {f : α → β} (hx : Spends x fun n a ↦ Q n (f a)) :
    Spends (f <$> x) Q := by
  intro window pos b pos' h
  obtain ⟨a, ha, rfl⟩ := map_eq_ok.mp h
  exact hx _ _ _ _ ha

theorem mono {x : Decoder α} {P' : Nat → α → Prop} (hx : Spends x P) (h : ∀ n a, P n a → P' n a) :
    Spends x P' := by
  intro window pos a pos' hr
  obtain ⟨n, he, hn, hP⟩ := hx _ _ _ _ hr
  exact ⟨n, he, hn, h n a hP⟩

theorem and {x : Decoder α} {R : α → Prop} (hx : Spends x P) (hy : Yields x R) :
    Spends x fun n a ↦ P n a ∧ R a := by
  intro window pos a pos' hr
  obtain ⟨n, he, hn, hP⟩ := hx _ _ _ _ hr
  exact ⟨n, he, hn, hP, hy _ _ _ _ hr⟩

theorem fail {e : ParseError} : Spends (throw e : Decoder α) P := by
  intro window pos a pos' h
  cases h

theorem ite {c : Prop} [Decidable c] {x y : Decoder α} (hx : c → Spends x P)
    (hy : ¬ c → Spends y P) : Spends (if c then x else y) P := by
  split
  · exact hx ‹_›
  · exact hy ‹_›

/-- A decoder that stays where it is. -/
theorem free {x : Decoder α} (h : ∀ window pos, (x window pos).state = pos) :
    Spends x fun n _ ↦ n = 0 := by
  intro window pos a pos' hr
  refine ⟨0, ?_, Or.inl rfl, rfl⟩
  rw [Nat.cast_zero, Int.add_zero, ← h window pos]
  exact (congrArg Prod.snd hr).symm

theorem debug (text : String) : Spends (debug text) fun n _ ↦ n = 0 := free fun _ _ ↦ rfl

variable {c : α → Nat} {last : Nat} {window : Window} {pos pos' : Int}

theorem of_times {r : Nat → Nat → Prop} (h0 : r 0 0)
    (hadd : ∀ a b a' b', r a b → r a' b' → r (a + a') (b + b')) {x : Nat → Decoder α}
    (hx : ∀ i, Spends (x i) fun n a ↦ r (c a) n) {i : Nat} {as : List α}
    (h : Times x window i pos as pos') :
    ∃ n : Nat, pos' = pos + n ∧ (n = 0 ∨ pos' ≤ window.stop) ∧ r (as.map c).sum n := by
  induction h with
  | nil => exact ⟨0, (Int.add_zero _).symm, Or.inl rfl, h0⟩
  | cons ha _ ih =>
    obtain ⟨m, rfl, hm, hr⟩ := hx _ _ _ _ _ ha
    obtain ⟨n, rfl, hn, hsum⟩ := ih
    refine ⟨m + n, by omega, by omega, ?_⟩
    rw [List.map_cons, List.sum_cons]
    exact hadd _ _ _ _ hr hsum

/-- What each answer costs at least, all of them cost together. -/
theorem times {x : Nat → Decoder α} {k : Nat} (hx : ∀ i, Spends (x i) fun n a ↦ c a ≤ n) :
    Spends (times k x) fun n as ↦ as.length = k ∧ (as.map c).sum ≤ n := by
  intro window pos as pos' h
  obtain ⟨hk, ht⟩ := times_eq_ok.mp h
  obtain ⟨n, he, hn, hle⟩ := of_times le_rfl (fun _ _ _ _ ↦ Nat.add_le_add) hx ht
  exact ⟨n, he, hn, hk, hle⟩

theorem times_eq {x : Nat → Decoder α} {k : Nat} (hx : ∀ i, Spends (x i) fun n a ↦ c a = n) :
    Spends (Decoder.times k x) fun n as ↦ as.length = k ∧ (as.map c).sum = n := by
  intro window pos as pos' h
  obtain ⟨hk, ht⟩ := times_eq_ok.mp h
  obtain ⟨n, he, hn, hsum⟩ := of_times rfl (fun _ _ _ _ ↦ congrArg₂ (· + ·)) hx ht
  exact ⟨n, he, hn, hk, hsum⟩

/-- What holds of the last round, and of one round more whenever it holds of those behind it. -/
theorem of_many {R : β → Nat → List α → β → Prop} {x : β → Decoder (Option (α × β))}
    (hstop : ∀ b, Spends (x b) fun n r ↦ r = none → R b n [] b)
    (hstep : ∀ b, Spends (x b) fun n r ↦ ∀ a b', r = some (a, b') →
      ∀ m as b'', R b' m as b'' → R b (n + m) (a :: as) b'')
    {b b' : β} {as : List α} (h : Many x window b pos as b' pos') :
    ∃ n : Nat, pos' = pos + n ∧ (n = 0 ∨ pos' ≤ window.stop) ∧ R b n as b' := by
  induction h with
  | stop ha =>
    obtain ⟨n, he, hn, hR⟩ := hstop _ _ _ _ _ ha
    exact ⟨n, he, hn, hR rfl⟩
  | step ha _ ih =>
    obtain ⟨m, rfl, hm, hR⟩ := hstep _ _ _ _ _ ha
    obtain ⟨n, rfl, hn, hrest⟩ := ih
    exact ⟨m + n, by omega, by omega, hR _ _ rfl _ _ _ hrest⟩

theorem manyWith {x : β → Decoder (Option (α × β))} {b : β}
    (hx : ∀ b, Spends (x b) fun n r ↦ r.elim last (fun p ↦ c p.1) ≤ n) :
    Spends (manyWith x b) fun n p ↦ (p.1.map c).sum + last ≤ n := by
  rintro window pos ⟨as, b'⟩ pos' h
  refine of_many (R := fun _ n as _ ↦ (as.map c).sum + last ≤ n) (fun b ↦ (hx b).mono ?_)
    (fun b ↦ (hx b).mono ?_) (manyWith_eq_ok.mp h).2
  · rintro n _ hle rfl
    simpa using hle
  · rintro n _ hle a b' rfl m as b'' hsum
    rw [List.map_cons, List.sum_cons, Nat.add_assoc]
    exact Nat.add_le_add hle hsum

theorem many {x : Decoder (Option α)} (hx : Spends x fun n r ↦ r.elim last c ≤ n) :
    Spends (many x) fun n as ↦ (as.map c).sum + last ≤ n := by
  refine map (manyWith fun _ ↦ hx.bind fun r m hr ↦ pure ?_)
  cases r with
  | none => exact hr
  | some a => exact hr

end Spends

theorem take_spends (size : Int) :
    Spends (take size) fun n bytes ↦ (n : Int) = size ∧ bytes.length = n := by
  intro window pos bytes pos' h
  obtain ⟨hsize, hlength⟩ := take_yields size window pos bytes pos' h
  simp only [run, take] at h
  split at h <;> rename_i hstop
  · simp at h
  · split at h
    · obtain ⟨-, rfl⟩ := Prod.mk.inj h
      exact ⟨bytes.length, by rw [hlength], Or.inr (Int.not_lt.mp hstop), hlength, rfl⟩
    · simp at h

theorem number_spends (size : Nat) : Spends (number size) fun n _ ↦ n = size :=
  (take_spends size).bind fun _ m hm ↦ .pure (by omega)

theorem short_spends : Spends short fun n _ ↦ n = 2 := number_spends 2

theorem word_spends : Spends word fun n _ ↦ n = 4 := number_spends 4

theorem numbers_spends (size count : Nat) :
    Spends (times count fun _ ↦ do return ((← number size : Nat) : Int)) fun n as ↦
      as.length = count ∧ size * count = n := by
  refine (Spends.times_eq (c := fun _ ↦ size) fun _ ↦
    (number_spends size).bind fun _ m hm ↦ .pure (by omega)).mono fun n as h ↦ ?_
  obtain ⟨hcount, hsum⟩ := h
  rw [List.map_const', List.sum_replicate, smul_eq_mul, hcount, Nat.mul_comm] at hsum
  exact ⟨hcount, hsum⟩

end Decoder

end Hunks
