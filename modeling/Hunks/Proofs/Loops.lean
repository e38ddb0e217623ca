import Mathlib
import Hunks.Proofs.Spends

namespace Hunks

namespace Decoder

open Hunks.Action (run)

variable {α β : Type} {window : Window} {pos pos' : Int} {k : Nat}

theorem run_bind_ok {x : Decoder α} {f : α → Decoder β} {a : α}
    (h : run (x window) pos = (.ok a, pos')) : run ((x >>= f) window) pos = run (f a window) pos' :=
  Action.run_bind_ok h

theorem run_bind_error {x : Decoder α} {f : α → Decoder β} {e : ParseError}
    (h : run (x window) pos = (.error e, pos')) :
    run ((x >>= f) window) pos = (.error e, pos') :=
  Action.run_bind_error h

theorem run_map (f : α → β) (x : Decoder α) :
    run ((f <$> x) window) pos = ((run (x window) pos).1.map f, (run (x window) pos).2) :=
  Action.run_map f (x window) pos

@[simp] theorem run_position : run (position window) pos = (.ok pos, pos) := rfl

@[simp] theorem run_remaining : run (remaining window) pos = (.ok (window.stop - pos), pos) := rfl

@[simp] theorem run_atEnd :
    run (atEnd window) pos = (.ok (decide (window.stop ≤ pos)), pos) := rfl

@[simp] theorem run_debug (text : String) : run (debug text window) pos = (.ok (), pos) := rfl

@[simp] theorem run_info (text : String) : run (info text window) pos = (.ok (), pos) := rfl

@[simp] theorem run_warn (text : String) : run (warn text window) pos = (.ok (), pos) := rfl

/-- Two sequences that start alike and go on alike from there. -/
theorem run_bind_congr {x y : Decoder α} {f g : α → Decoder β}
    (hx : run (x window) pos = run (y window) pos)
    (h : ∀ a mid, run (y window) pos = (.ok a, mid) →
      run (f a window) mid = run (g a window) mid) :
    run ((x >>= f) window) pos = run ((y >>= g) window) pos := by
  rcases hr : run (y window) pos with ⟨e | a, mid⟩
  · rw [run_bind_error hr, run_bind_error (hx.trans hr)]
  · rw [run_bind_ok hr, run_bind_ok (hx.trans hr), h a mid hr]

/-- Each answer of a repeated decoder takes at least `k` bytes. -/
def Takes (k : Nat) (x : Decoder (Option α)) : Prop :=
  Spends x fun n r ↦ r.isSome → k ≤ n

theorem Takes.mono {x : Decoder (Option α)} {l : Nat} (h : Takes k x) (hl : l ≤ k) : Takes l x :=
  Spends.mono h fun _ _ hn hr ↦ hl.trans (hn hr)

theorem Takes.of_spends {x : Decoder (Option α)} {c : α → Nat} {last : Nat}
    (h : Spends x fun n r ↦ r.elim last c ≤ n) (hc : ∀ a, k ≤ c a) : Takes k x := by
  refine Spends.mono h fun n r hn hr ↦ ?_
  obtain ⟨a, rfl⟩ := Option.isSome_iff_exists.mp hr
  exact (hc a).trans hn

theorem Takes.answer {x : Decoder (Option α)} (h : Takes k x) (hk : 0 < k) {a : α}
    (hr : run (x window) pos = (.ok (some a), pos')) : pos + k ≤ pos' ∧ pos' ≤ window.stop := by
  obtain ⟨n, rfl, hstop, hn⟩ := h _ _ _ _ hr
  have hle : k ≤ n := hn rfl
  omega

theorem Takes.repeated {x : Decoder (Option α)} (h : Takes k x) :
    Takes k (do return (← x).map (·, ())) := by
  refine Spends.bind h fun r n hn ↦ .pure ?_
  intro hr
  rw [Option.isSome_map] at hr
  exact hn hr

theorem Takes.manyWith {x : β → Decoder (Option (α × β))} (hx : ∀ b, Takes k (x b)) (b : β) :
    Spends (manyWith x b) fun n p ↦ k * p.1.length ≤ n := by
  have hround : ∀ b, Spends (x b) fun n r ↦ r.elim 0 (fun _ ↦ k) ≤ n := by
    intro b
    refine Spends.mono (hx b) fun n r hn ↦ ?_
    cases r with
    | none => exact Nat.zero_le n
    | some p => exact hn rfl
  refine (Spends.manyWith (c := fun _ ↦ k) hround).mono fun n p hn ↦ ?_
  rwa [List.map_const', List.sum_replicate, smul_eq_mul, Nat.mul_comm, Nat.add_zero] at hn

/-- A loop without a bound: the answers that it collects, and the state or the error that it ends
with. -/
inductive Loops (x : β → Decoder (Option (α × β))) (window : Window) :
    β → Int → List α → Except ParseError β → Int → Prop
  | stop {b : β} {pos pos' : Int} :
      run (x b window) pos = (.ok none, pos') → Loops x window b pos [] (.ok b) pos'
  | fail {b : β} {pos pos' : Int} {e : ParseError} :
      run (x b window) pos = (.error e, pos') → Loops x window b pos [] (.error e) pos'
  | step {b b' : β} {pos mid pos' : Int} {a : α} {as : List α} {last : Except ParseError β} :
      run (x b window) pos = (.ok (some (a, b')), mid) → Loops x window b' mid as last pos' →
      Loops x window b pos (a :: as) last pos'

section Loops

variable {x y : β → Decoder (Option (α × β))} {b : β} {as : List α} {last : Except ParseError β}

/-- A loop ends if its answers take bytes, for which the window has only so many. -/
theorem exists_loops (hx : ∀ b, Takes k (x b)) (hk : 0 < k) (b : β) (pos : Int) :
    ∃ as last pos', Loops x window b pos as last pos' ∧
      k * as.length ≤ (window.stop - pos).toNat := by
  induction hn : (window.stop - pos).toNat using Nat.strong_induction_on generalizing b pos with
  | _ n ih =>
    rcases hr : run (x b window) pos with ⟨e | (_ | ⟨a, b'⟩), mid⟩
    · exact ⟨[], .error e, mid, .fail hr, by simp⟩
    · exact ⟨[], .ok b, mid, .stop hr, by simp⟩
    · obtain ⟨hmid, hstop⟩ := (hx b).answer hk hr
      obtain ⟨as, last, pos', hloop, hlength⟩ := ih (window.stop - mid).toNat (by omega) b' mid rfl
      refine ⟨a :: as, last, pos', .step hr hloop, ?_⟩
      rw [List.length_cons, Nat.mul_succ]
      omega

theorem Loops.manyAux (h : Loops x window b pos as last pos') {fuel : Nat} (hf : as.length < fuel)
    (done : Array α) (log : Log) :
    ((manyAux x window fuel b done pos log).result, (manyAux x window fuel b done pos log).state) =
      (last.map (done.toList ++ as, ·), pos') := by
  induction h generalizing fuel done log with
  | @stop b pos pos' hr =>
    obtain ⟨fuel, rfl⟩ := Nat.exists_eq_succ_of_ne_zero (Nat.ne_zero_of_lt hf)
    have hx : ((x b window pos).result, (x b window pos).state) = (.ok none, pos') := hr
    simp only [Decoder.manyAux]
    rcases hs : x b window pos with ⟨r, mid, more⟩
    rw [hs] at hx
    cases hx
    simp [Except.map]
  | @fail b pos pos' e hr =>
    obtain ⟨fuel, rfl⟩ := Nat.exists_eq_succ_of_ne_zero (Nat.ne_zero_of_lt hf)
    have hx : ((x b window pos).result, (x b window pos).state) = (.error e, pos') := hr
    simp only [Decoder.manyAux]
    rcases hs : x b window pos with ⟨r, mid, more⟩
    rw [hs] at hx
    cases hx
    rfl
  | @step b b' pos mid pos' a as last hr _ ih =>
    obtain ⟨fuel, rfl⟩ := Nat.exists_eq_succ_of_ne_zero (Nat.ne_zero_of_lt hf)
    have hx : ((x b window pos).result, (x b window pos).state) = (.ok (some (a, b')), mid) := hr
    simp only [Decoder.manyAux]
    rcases hs : x b window pos with ⟨r, mid, more⟩
    rw [hs] at hx
    cases hx
    rw [List.length_cons] at hf
    rw [ih (by omega)]
    simp

/-- The bound on a repeated decoder does not show where the loop without it gets no more answers than
there are bytes. -/
theorem Loops.manyWith (h : Loops x window b pos as last pos')
    (hl : as.length ≤ (window.stop - pos).toNat) :
    run (manyWith x b window) pos = (last.map (as, ·), pos') :=
  h.manyAux (Nat.lt_succ_of_le hl) #[] ∅

theorem manyWith_loops (hx : ∀ b, Takes k (x b)) (hk : 0 < k) (b : β) (pos : Int) :
    ∃ as last pos', Loops x window b pos as last pos' ∧
      k * as.length ≤ (window.stop - pos).toNat ∧
      run (manyWith x b window) pos = (last.map (as, ·), pos') := by
  obtain ⟨as, last, pos', hloop, hlength⟩ := exists_loops hx hk b pos
  have hle : as.length ≤ k * as.length := Nat.le_mul_of_pos_left _ hk
  exact ⟨as, last, pos', hloop, hlength, hloop.manyWith (hle.trans hlength)⟩

/-- A repeated decoder runs like the first round and then the rest of the loop. -/
theorem run_manyWith (hx : ∀ b, Takes 1 (x b)) (b : β) (pos : Int) :
    run (manyWith x b window) pos = run ((x b >>= fun
      | none => pure ([], b)
      | some (a, b') => (fun p : List α × β ↦ (a :: p.1, p.2)) <$> manyWith x b') window) pos := by
  rcases hr : run (x b window) pos with ⟨e | (_ | ⟨a, b'⟩), mid⟩
  · have hloop : Loops x window b pos [] (.error e) mid := .fail hr
    rw [hloop.manyWith (Nat.zero_le _), run_bind_error hr]
    rfl
  · have hloop : Loops x window b pos [] (.ok b) mid := .stop hr
    rw [hloop.manyWith (Nat.zero_le _), run_bind_ok hr]
    rfl
  · obtain ⟨hmid, hstop⟩ := (hx b).answer Nat.one_pos hr
    obtain ⟨as, last, pos', hrest, hlength, hrun⟩ := manyWith_loops hx Nat.one_pos b' mid
    have hloop : Loops x window b pos (a :: as) last pos' := .step hr hrest
    rw [hloop.manyWith (by rw [List.length_cons]; omega), run_bind_ok hr]
    dsimp only
    rw [run_map, hrun]
    cases last <;> rfl

theorem Loops.congr (hx : ∀ b, Takes 1 (x b)) (hloop : Loops x window b pos as last pos')
    (h : ∀ b mid, pos ≤ mid → run (x b window) mid = run (y b window) mid) :
    Loops y window b pos as last pos' := by
  induction hloop with
  | stop hr =>
    rw [h _ _ le_rfl] at hr
    exact .stop hr
  | fail hr =>
    rw [h _ _ le_rfl] at hr
    exact .fail hr
  | step hr _ ih =>
    obtain ⟨hmid, -⟩ := (hx _).answer Nat.one_pos hr
    rw [h _ _ le_rfl] at hr
    exact .step hr (ih fun b place hp ↦ h b place (by omega))

/-- Two repeated decoders whose rounds agree from a place on. -/
theorem manyWith_congr (hx : ∀ b, Takes 1 (x b))
    (h : ∀ b mid, pos ≤ mid → run (x b window) mid = run (y b window) mid) :
    run (manyWith x b window) pos = run (manyWith y b window) pos := by
  obtain ⟨as, last, pos', hloop, hlength, hrun⟩ := manyWith_loops hx Nat.one_pos b pos
  rw [hrun, (hloop.congr hx h).manyWith (by omega)]

end Loops

/-- The loop of a decoder that is repeated until it answers `none`. -/
def Repeats (x : Decoder (Option α)) (window : Window) (pos : Int) (as : List α)
    (last : Except ParseError Unit) (pos' : Int) : Prop :=
  Loops (fun _ : Unit ↦ do return (← x).map (·, ())) window () pos as last pos'

section Repeats

variable {x y : Decoder (Option α)}

theorem run_many_eq {as : List α} {last : Except ParseError Unit}
    (h : run (manyWith (fun _ : Unit ↦ do return (← x).map (·, ())) () window) pos =
      (last.map (as, ·), pos')) :
    run (many x window) pos = (last.map fun _ ↦ as, pos') := by
  refine (run_map Prod.fst _).trans ?_
  rw [h]
  cases last <;> rfl

/-- A repeated decoder whose answers take bytes does what the loop without a bound does, which
ends. -/
theorem many_repeats (hx : Takes k x) (hk : 0 < k) (pos : Int) :
    ∃ as last pos', Repeats x window pos as last pos' ∧
      k * as.length ≤ (window.stop - pos).toNat ∧
      run (many x window) pos = (last.map fun _ ↦ as, pos') := by
  obtain ⟨as, last, pos', hloop, hlength, hrun⟩ :=
    manyWith_loops (fun _ : Unit ↦ hx.repeated) hk () pos
  exact ⟨as, last, pos', hloop, hlength, run_many_eq hrun⟩

/-- A repeated decoder runs like the first round and then the rest of the loop. -/
theorem run_many (hx : Takes 1 x) (pos : Int) :
    run (many x window) pos = run ((x >>= fun
      | none => pure []
      | some a => (a :: ·) <$> many x) window) pos := by
  have hround : run ((do return (← x).map (·, ()) : Decoder (Option (α × Unit))) window) pos =
      ((run (x window) pos).1.map fun r ↦ r.map (·, ()), (run (x window) pos).2) :=
    run_map (Option.map fun a : α ↦ (a, ())) x
  refine (run_map Prod.fst _).trans ?_
  rw [run_manyWith (fun _ ↦ hx.repeated)]
  rcases hr : run (x window) pos with ⟨e | (_ | a), mid⟩
  · rw [hr] at hround
    rw [run_bind_error hround, run_bind_error hr]
    rfl
  · rw [hr] at hround
    rw [run_bind_ok hround, run_bind_ok hr]
    rfl
  · rw [hr] at hround
    rw [run_bind_ok hround, run_bind_ok hr]
    dsimp only [Option.map_some]
    rw [run_map, run_map, many, run_map]
    cases (run (manyWith (fun _ : Unit ↦ do return (← x).map (·, ())) () window) mid).1 <;> rfl

theorem run_many_none (hx : Takes 1 x) (h : run (x window) pos = (.ok none, pos')) :
    run (many x window) pos = (.ok [], pos') := by
  rw [run_many hx, run_bind_ok h]
  rfl

theorem run_many_some (hx : Takes 1 x) {a : α} (h : run (x window) pos = (.ok (some a), pos')) :
    run (many x window) pos =
      ((run (many x window) pos').1.map (a :: ·), (run (many x window) pos').2) := by
  rw [run_many hx, run_bind_ok h]
  exact run_map (a :: ·) (many x)

theorem run_many_error (hx : Takes 1 x) {e : ParseError}
    (h : run (x window) pos = (.error e, pos')) : run (many x window) pos = (.error e, pos') := by
  rw [run_many hx, run_bind_error h]

theorem many_eq_nil (hx : Takes 1 x) (h : run (many x window) pos = (.ok [], pos')) :
    run (x window) pos = (.ok none, pos') := by
  rw [run_many hx] at h
  obtain ⟨r, mid, hr, h⟩ := bind_eq_ok.mp h
  cases r with
  | none =>
    obtain ⟨-, rfl⟩ := pure_eq_ok.mp h
    exact hr
  | some a =>
    obtain ⟨as, -, hcons⟩ := map_eq_ok.mp h
    cases hcons

theorem many_eq_cons (hx : Takes 1 x) {a : α} {as : List α}
    (h : run (many x window) pos = (.ok (a :: as), pos')) :
    ∃ mid, run (x window) pos = (.ok (some a), mid) ∧
      run (many x window) mid = (.ok as, pos') := by
  rw [run_many hx] at h
  obtain ⟨r, mid, hr, h⟩ := bind_eq_ok.mp h
  cases r with
  | none =>
    obtain ⟨hnil, -⟩ := pure_eq_ok.mp h
    cases hnil
  | some b =>
    obtain ⟨bs, hrest, hcons⟩ := map_eq_ok.mp h
    cases hcons
    exact ⟨mid, hr, hrest⟩

/-- A repeated decoder does what the loop without a bound does, which ends. -/
def Ends (x : Decoder (Option α)) (window : Window) : Prop :=
  ∀ pos, ∃ as last pos', Repeats x window pos as last pos' ∧
    run (many x window) pos = (last.map fun _ ↦ as, pos')

theorem Takes.ends (hx : Takes k x) (hk : 0 < k) (window : Window) : Ends x window := by
  intro pos
  obtain ⟨as, last, pos', hloop, -, hrun⟩ := many_repeats hx hk pos
  exact ⟨as, last, pos', hloop, hrun⟩

theorem many_congr (hx : Takes 1 x)
    (h : ∀ mid, pos ≤ mid → run (x window) mid = run (y window) mid) :
    run (many x window) pos = run (many y window) pos := by
  have hround : ∀ (_ : Unit) mid, pos ≤ mid →
      run ((do return (← x).map (·, ()) : Decoder (Option (α × Unit))) window) mid =
        run ((do return (← y).map (·, ()) : Decoder (Option (α × Unit))) window) mid :=
    fun _ mid hp ↦ run_bind_congr (h mid hp) fun _ _ _ ↦ rfl
  refine Eq.trans (run_map Prod.fst _) (Eq.trans ?_ (run_map Prod.fst _).symm)
  rw [manyWith_congr (fun _ ↦ hx.repeated) hround]

end Repeats

/-- A decoder run `n` times, its numbers counted from `i` on. -/
def timesFrom (x : Nat → Decoder α) : (n i : Nat) → Decoder (List α)
  | 0, _ => pure []
  | n + 1, i => do return (← x i) :: (← timesFrom x n (i + 1))

theorem timesAux_eq (x : Nat → Decoder α) (n i : Nat) (done : Array α) (pos : Int) (log : Log) :
    ((timesAux x window n i done pos log).result, (timesAux x window n i done pos log).state) =
      ((run (timesFrom x n i window) pos).1.map (done.toList ++ ·),
        (run (timesFrom x n i window) pos).2) := by
  induction n generalizing i done pos log with
  | zero =>
    simp only [timesAux, timesFrom]
    rw [show run ((pure [] : Decoder (List α)) window) pos = (.ok [], pos) from rfl]
    simp [Except.map]
  | succ n ih =>
    have hx : run (x i window) pos = ((x i window pos).result, (x i window pos).state) := rfl
    simp only [timesAux, timesFrom]
    rcases hr : x i window pos with ⟨e | a, mid, more⟩
    · rw [hr] at hx
      rw [run_bind_error hx]
      rfl
    · rw [hr] at hx
      dsimp only
      rw [run_bind_ok hx, ih]
      have hrest : run ((do return a :: (← timesFrom x n (i + 1)) : Decoder (List α)) window) mid =
          ((run (timesFrom x n (i + 1) window) mid).1.map (a :: ·),
            (run (timesFrom x n (i + 1) window) mid).2) := run_map (a :: ·) (timesFrom x n (i + 1))
      rw [hrest]
      cases (run (timesFrom x n (i + 1) window) mid).1 with
      | error e => rfl
      | ok as => simp [Except.map]

theorem run_times (x : Nat → Decoder α) (n : Nat) :
    run (times n x window) pos = run (timesFrom x n 0 window) pos := by
  refine (timesAux_eq x n 0 #[] pos ∅).trans ?_
  cases hr : run (timesFrom x n 0 window) pos with
  | mk r mid => cases r <;> rfl

end Decoder

end Hunks
