import Mathlib
import Hunks.Proofs.Loops

namespace Hunks

open Hunks.Action (run)

/-- The bytes of a window lie in another window, a number of bytes behind its start. -/
structure Window.PartOf (part whole : Window) (shift : Nat) : Prop where
  size : part.stop ≤ part.data.size
  wholeSize : whole.stop ≤ whole.data.size
  stop : part.stop + shift ≤ whole.stop
  bytes : ∀ i : Nat, (i : Int) < part.stop → part.data[i]? = whole.data[i + shift]?

theorem Window.PartOf.extract {part whole : Window} {shift : Nat} (h : part.PartOf whole shift)
    {start stop : Nat} (hs : (stop : Int) ≤ part.stop) :
    part.data.extract start stop = whole.data.extract (start + shift) (stop + shift) := by
  have hsize := h.size
  have hwhole := h.wholeSize
  have hstop := h.stop
  refine Array.ext_getElem? fun i ↦ ?_
  rw [Array.getElem?_extract, Array.getElem?_extract]
  by_cases hi : start + i < stop
  · rw [if_pos (by omega), if_pos (by omega), h.bytes _ (by omega)]
    congr 1
    omega
  · rw [if_neg (by omega), if_neg (by omega)]

namespace Decoder

variable {α β γ δ : Type} {part whole : Window} {shift : Nat}

/-- What a run on a part of a window and a run on the window itself come to, where `back` makes the
result of the one from that of the other: the part may end too early, but never says anything else. -/
inductive Matches (part whole : Window) (shift : Nat) (back : β → α) :
    Except ParseError α × Int → Except ParseError β × Int → Prop
  | ok {b : β} {pos : Int} : 0 ≤ pos →
      Matches part whole shift back (.ok (back b), pos) (.ok b, pos + shift)
  | fail {e e' : ParseError} {pos pos' : Int} : e.kind = e'.kind →
      Matches part whole shift back (.error e, pos) (.error e', pos')
  | ended {e : ParseError} {r : Except ParseError β} {pos pos' : Int} :
      part.stop + shift < whole.stop → e.kind = .unexpectedEnd →
      (∀ b, r = .ok b → part.stop + shift < pos') →
      Matches part whole shift back (.error e, pos) (r, pos')

/-- A decoder does on a part of a window what another one does on the window itself. -/
structure Follows (part whole : Window) (shift : Nat) (x : Decoder α) (y : Decoder β)
    (back : β → α) : Prop where
  forward : ∀ pos b pos', run (y whole) pos = (.ok b, pos') → pos ≤ pos'
  run : ∀ pos, 0 ≤ pos →
    Matches part whole shift back (Action.run (x part) pos) (Action.run (y whole) (pos + shift))

/-- What a decoder returns does not depend on where its window lies. -/
def Local (x : Decoder α) : Prop :=
  ∀ part whole shift, part.PartOf whole shift → Follows part whole shift x x id

/-- A run goes on as it went on the part, or it has passed the end of the part. -/
theorem Matches.bind {x : Decoder α} {y : Decoder β} {f : α → Decoder γ} {g : β → Decoder δ}
    {back : β → α} {back' : δ → γ} {pos pos' : Int}
    (hx : Matches part whole shift back (run (x part) pos) (run (y whole) pos'))
    (hf : ∀ b mid, run (x part) pos = (.ok (back b), mid) → 0 ≤ mid →
      Matches part whole shift back' (run (f (back b) part) mid) (run (g b whole) (mid + shift)))
    (hg : ∀ b mid c stop, run (g b whole) mid = (.ok c, stop) → mid ≤ stop) :
    Matches part whole shift back' (run ((x >>= f) part) pos) (run ((y >>= g) whole) pos') := by
  generalize hp : run (x part) pos = p at hx
  generalize hw : run (y whole) pos' = w at hx
  cases hx with
  | ok hmid =>
    rw [run_bind_ok hp, run_bind_ok hw]
    exact hf _ _ hp hmid
  | fail he =>
    rw [run_bind_error hp, run_bind_error hw]
    exact .fail he
  | @ended e r mid mid' hstop he hlate =>
    rw [run_bind_error hp]
    cases r with
    | error e' =>
      rw [run_bind_error hw]
      exact .ended hstop he fun _ h ↦ by cases h
    | ok b =>
      rw [run_bind_ok hw]
      have hmid := hlate b rfl
      refine .ended hstop he fun c hc ↦ ?_
      exact hmid.trans_le (hg b mid' c _ (Prod.ext hc rfl))

/-- What the part says where the run on the whole returns. -/
theorem Matches.of_ok {back : β → α} {p : Except ParseError α × Int} {b : β} {pos : Int}
    (h : Matches part whole shift back p (.ok b, pos)) :
    p = (.ok (back b), pos - shift) ∨ part.stop + shift < pos ∧
      ∃ e last, p = (.error e, last) ∧ e.kind = .unexpectedEnd := by
  generalize hw : ((.ok b : Except ParseError β), pos) = w at h
  cases h with
  | @ok b' mid _ =>
    cases hw
    exact .inl (by rw [Int.add_sub_cancel])
  | fail => cases hw
  | @ended e r mid mid' _ he hlate =>
    cases hw
    exact .inr ⟨hlate b rfl, e, mid, rfl, he⟩

/-- What the part returns, the run on the whole returns. -/
theorem Matches.ok_left {back : β → α} {w : Except ParseError β × Int} {a : α} {pos : Int}
    (h : Matches part whole shift back (.ok a, pos) w) :
    ∃ b, a = back b ∧ w = (.ok b, pos + shift) ∧ 0 ≤ pos := by
  generalize hp : ((.ok a : Except ParseError α), pos) = p at h
  cases h with
  | @ok b mid hmid =>
    cases hp
    exact ⟨b, rfl, rfl, hmid⟩
  | fail => cases hp
  | ended => cases hp

/-- A part that ends where the whole does fails as the whole does. -/
theorem Matches.error_left {back : β → α} {w : Except ParseError β × Int} {e : ParseError}
    {pos : Int} (hstop : part.stop + shift = whole.stop)
    (h : Matches part whole shift back (.error e, pos) w) :
    ∃ e' pos', w = (.error e', pos') ∧ e'.kind = e.kind := by
  generalize hp : ((.error e : Except ParseError α), pos) = p at h
  cases h with
  | ok => cases hp
  | @fail e₁ e' mid mid' he =>
    cases hp
    exact ⟨e', mid', rfl, he.symm⟩
  | ended hlt => omega

theorem Matches.map {back : β → α} {back' : δ → γ} {f : α → γ} {g : β → δ}
    {p : Except ParseError α × Int} {w : Except ParseError β × Int}
    (h : Matches part whole shift back p w) (hf : ∀ b, f (back b) = back' (g b)) :
    Matches part whole shift back' (p.1.map f, p.2) (w.1.map g, w.2) := by
  cases h with
  | @ok b pos hpos =>
    have hok : Matches part whole shift back' (.ok (back' (g b)), pos) (.ok (g b), pos + shift) :=
      .ok hpos
    rwa [← hf b] at hok
  | fail he => exact .fail he
  | @ended e r pos pos' hstop he hlate =>
    refine .ended hstop he fun c hc ↦ ?_
    cases r with
    | error e' => cases hc
    | ok b => exact hlate b rfl

namespace Follows

variable {x : Decoder α} {y : Decoder β} {back : β → α} {back' : δ → γ}

theorem forward_of_spends {P : Nat → β → Prop} (hy : Spends y P) :
    ∀ pos b pos', Action.run (y whole) pos = (.ok b, pos') → pos ≤ pos' := by
  intro pos b pos' h
  obtain ⟨n, rfl, -, -⟩ := hy _ _ _ _ h
  omega

theorem bind {f : α → Decoder γ} {g : β → Decoder δ} (hx : Follows part whole shift x y back)
    (hf : ∀ b, Follows part whole shift (f (back b)) (g b) back') :
    Follows part whole shift (x >>= f) (y >>= g) back' where
  forward pos c pos' h := by
    obtain ⟨b, mid, hb, hc⟩ := bind_eq_ok.mp h
    exact (hx.forward pos b mid hb).trans ((hf b).forward mid c pos' hc)
  run pos hpos := by
    refine (hx.run pos hpos).bind (fun b mid _ hmid ↦ (hf b).run mid hmid) ?_
    exact fun b ↦ (hf b).forward

theorem pure {a : α} {b : β} (h : a = back b) :
    Follows part whole shift (Pure.pure a) (Pure.pure b) back where
  forward pos c pos' h := by
    obtain ⟨-, rfl⟩ := pure_eq_ok.mp h
    exact le_rfl
  run _ hpos := by
    subst h
    exact .ok hpos

theorem map {f : α → γ} {g : β → δ} (hx : Follows part whole shift x y back)
    (h : ∀ b, f (back b) = back' (g b)) :
    Follows part whole shift (f <$> x) (g <$> y) back' where
  forward pos c pos' hc := by
    obtain ⟨b, hb, -⟩ := map_eq_ok.mp hc
    exact hx.forward pos b pos' hb
  run pos hpos := by
    rw [run_map, run_map]
    exact (hx.run pos hpos).map h

theorem fail {e e' : ParseError} (h : e.kind = e'.kind) :
    Follows part whole shift (Decoder.fail e) (Decoder.fail e') back where
  forward pos b pos' h := by cases h
  run _ _ := .fail h

theorem ite {c d : Prop} [Decidable c] [Decidable d] {x' : Decoder α} {y' : Decoder β}
    (hcd : c ↔ d) (hx : Follows part whole shift x y back)
    (hy : Follows part whole shift x' y' back) :
    Follows part whole shift (if c then x else x') (if d then y else y') back := by
  by_cases hd : d
  · rwa [if_pos (hcd.mpr hd), if_pos hd]
  · rwa [if_neg (mt hcd.mp hd), if_neg hd]

theorem position : Follows part whole shift position position (· - (shift : Int)) where
  forward pos b pos' h := by
    rw [run_position] at h
    exact (Prod.mk.inj h).2.le
  run pos hpos := by
    rw [run_position, run_position]
    have h : Matches part whole shift (fun here : Int ↦ here - shift)
        (.ok (pos + shift - shift), pos) (.ok (pos + shift), pos + shift) := .ok hpos
    rwa [Int.add_sub_cancel] at h

theorem debug (text text' : String) :
    Follows part whole shift (Decoder.debug text) (Decoder.debug text') id where
  forward pos b pos' h := by
    rw [run_debug] at h
    exact (Prod.mk.inj h).2.le
  run _ hpos := .ok hpos

theorem info (text text' : String) :
    Follows part whole shift (Decoder.info text) (Decoder.info text') id where
  forward pos b pos' h := by
    rw [run_info] at h
    exact (Prod.mk.inj h).2.le
  run _ hpos := .ok hpos

theorem warn (text text' : String) :
    Follows part whole shift (Decoder.warn text) (Decoder.warn text') id where
  forward pos b pos' h := by
    rw [run_warn] at h
    exact (Prod.mk.inj h).2.le
  run _ hpos := .ok hpos

/-- Repeated decoders follow each other if their rounds do. Each answer on the part brings its end
nearer. -/
theorem manyWith {x : γ → Decoder (Option (α × γ))} {y : γ → Decoder (Option (β × γ))}
    (hx : ∀ c, Takes 1 (x c)) (hy : ∀ c, Takes 1 (y c))
    (h : ∀ c, Follows part whole shift (x c) (y c) (Option.map (Prod.map back id))) (c : γ) :
    Follows part whole shift (manyWith x c) (manyWith y c) (Prod.map (List.map back) id) := by
  have hforward : ∀ c pos r pos', Action.run (Decoder.manyWith y c whole) pos = (.ok r, pos') →
      pos ≤ pos' := by
    intro c
    exact forward_of_spends (Takes.manyWith hy c)
  refine ⟨hforward c, fun pos hpos ↦ ?_⟩
  induction hn : (part.stop - pos).toNat using Nat.strong_induction_on generalizing c pos with
  | _ n ih =>
    rw [run_manyWith hx, run_manyWith hy]
    refine ((h c).run pos hpos).bind (fun r mid hr hmid ↦ ?_) fun r mid p stop hrun ↦ ?_
    · cases r with
      | none => exact .ok (b := ([], c)) hmid
      | some p =>
        obtain ⟨hlt, hstop⟩ := (hx c).answer Nat.one_pos hr
        have hrest := ih (part.stop - mid).toNat (by omega) p.2 mid hmid rfl
        dsimp only [Option.map_some, Prod.map]
        rw [run_map, run_map]
        exact hrest.map fun _ ↦ rfl
    · cases r with
      | none => exact (pure_eq_ok.mp hrun).2.le
      | some r =>
        obtain ⟨q, hq, -⟩ := map_eq_ok.mp hrun
        exact hforward r.2 mid q stop hq

theorem many {x : Decoder (Option α)} {y : Decoder (Option β)} (hx : Takes 1 x) (hy : Takes 1 y)
    (h : Follows part whole shift x y (Option.map back)) :
    Follows part whole shift (many x) (many y) (List.map back) := by
  have hround : ∀ _ : Unit, Follows part whole shift (do return (← x).map (·, ()))
      (do return (← y).map (·, ())) (Option.map (Prod.map back id)) := by
    intro _
    refine bind h fun r ↦ ?_
    cases r with
    | none => exact pure rfl
    | some b => exact pure rfl
  exact (manyWith (fun _ ↦ hx.repeated) (fun _ ↦ hy.repeated) hround ()).map fun _ ↦ rfl

end Follows

namespace Local

variable {x : Decoder α}

theorem bind {f : α → Decoder β} (hx : Local x) (hf : ∀ a, Local (f a)) : Local (x >>= f) :=
  fun _ _ _ hp ↦ (hx _ _ _ hp).bind fun a ↦ hf a _ _ _ hp

theorem pure (a : α) : Local (Pure.pure a) := fun _ _ _ _ ↦ .pure rfl

theorem map (f : α → β) (hx : Local x) : Local (f <$> x) :=
  fun _ _ _ hp ↦ (hx _ _ _ hp).map fun _ ↦ rfl

theorem fail (e : ParseError) : Local (Decoder.fail e : Decoder α) := fun _ _ _ _ ↦ .fail rfl

theorem debug (text : String) : Local (Decoder.debug text) := fun _ _ _ _ ↦ .debug text text

theorem ite {c : Prop} [Decidable c] {y : Decoder α} (hx : Local x) (hy : Local y) :
    Local (if c then x else y) := by
  split
  · exact hx
  · exact hy

theorem manyWith {x : β → Decoder (Option (α × β))} (hx : ∀ b, Takes 1 (x b))
    (h : ∀ b, Local (x b)) (b : β) : Local (manyWith x b) := by
  intro part whole shift hp
  have hround : ∀ b, Follows part whole shift (x b) (x b) (Option.map (Prod.map id id)) := by
    intro b
    simpa using h b part whole shift hp
  simpa using Follows.manyWith hx hx hround b

theorem many {x : Decoder (Option α)} (hx : Takes 1 x) (h : Local x) : Local (many x) := by
  intro part whole shift hp
  have hround : Follows part whole shift x x (Option.map id) := by
    simpa using h part whole shift hp
  simpa using Follows.many hx hx hround

theorem timesFrom {x : Nat → Decoder α} (h : ∀ i, Local (x i)) (n i : Nat) :
    Local (timesFrom x n i) := by
  induction n generalizing i with
  | zero => exact pure []
  | succ n ih => exact (h i).bind fun a ↦ (ih (i + 1)).bind fun as ↦ pure _

theorem times {x : Nat → Decoder α} (h : ∀ i, Local (x i)) (n : Nat) : Local (times n x) := by
  intro part whole shift hp
  obtain ⟨hforward, hrun⟩ := timesFrom h n 0 part whole shift hp
  constructor
  · intro pos as pos' h
    rw [run_times] at h
    exact hforward pos as pos' h
  · intro pos hpos
    rw [run_times, run_times]
    exact hrun pos hpos

theorem take_error {window : Window} {size pos pos' : Int} {e : ParseError}
    (h : run (Decoder.take size window) pos = (.error e, pos')) : e.kind = .unexpectedEnd := by
  simp only [run, Decoder.take, Window.range] at h
  split at h
  · cases h
    rfl
  · split at h <;> rename_i hr
    · cases h
    · split at hr
      · cases hr
        cases h
        rfl
      · cases hr

theorem take (size : Int) : Local (take size) := by
  intro part whole shift hp
  refine ⟨Follows.forward_of_spends (take_spends size), fun pos hpos ↦ ?_⟩
  have hsize := hp.size
  have hwhole := hp.wholeSize
  have hstop := hp.stop
  by_cases hin : 0 ≤ size ∧ pos + size ≤ part.stop
  · obtain ⟨start, rfl⟩ := Int.eq_ofNat_of_zero_le hpos
    obtain ⟨n, rfl⟩ := Int.eq_ofNat_of_zero_le hin.1
    have hbytes : part.data.extract start (start + n) =
        whole.data.extract (start + shift) (start + n + shift) := hp.extract (by omega)
    have hstart : ((start : Int) + shift).toNat = start + shift := by omega
    have hplace : ((start : Int) + n).toNat = start + n := by omega
    have hplace' : ((start : Int) + shift + n).toNat = start + n + shift := by omega
    have hpart : run (Decoder.take n part) start =
        (Except.ok (part.data.extract start (start + n)).toList, (start : Int) + n) :=
      take_eq_ok.mpr ⟨hpos, hin.1, hin.2, by omega, rfl, by rw [hplace, Int.toNat_natCast]⟩
    have hwhole' : run (Decoder.take n whole) (start + shift) =
        (Except.ok (part.data.extract start (start + n)).toList, (start : Int) + n + shift) :=
      take_eq_ok.mpr ⟨by omega, hin.1, by omega, by omega, by omega, by rw [hplace', hstart, hbytes]⟩
    rw [hpart, hwhole']
    exact .ok (by omega)
  · rcases hr : run (Decoder.take size part) pos with ⟨e | bytes, mid⟩
    · have he := take_error hr
      rcases hw : run (Decoder.take size whole) (pos + shift) with ⟨e' | bytes, mid'⟩
      · exact .fail (he.trans (take_error hw).symm)
      · obtain ⟨-, hzero, hle, -, rfl, -⟩ := take_eq_ok.mp hw
        refine .ended ?_ he fun _ _ ↦ ?_
        · omega
        · omega
    · obtain ⟨-, hzero, hle, -⟩ := take_eq_ok.mp hr
      exact absurd ⟨hzero, hle⟩ hin

theorem number (size : Nat) : Local (number size) := (take size).bind fun _ ↦ pure _

theorem short : Local short := number 2

theorem word : Local word := number 4

theorem numbers (size n : Nat) :
    Local (Decoder.times n fun _ ↦ do return ((← Decoder.number size : Nat) : Int)) :=
  times (fun _ ↦ (number size).bind fun _ ↦ pure _) n

theorem text (size : Int) : Local (text size) := (take size).bind fun _ ↦ pure _

theorem nameOfLongs (longs : Int) : Local (nameOfLongs longs) := text _

theorem name : Local name :=
  word.bind fun longs ↦ ite (pure "") (nameOfLongs longs)

theorem words (n : Nat) : Local (words n) := numbers 4 n

theorem shorts (n : Nat) : Local (shorts n) := numbers 2 n

theorem longBytes (longs : Nat) : Local (longBytes longs) := (take _).bind fun _ ↦ pure _

end Local

end Decoder

end Hunks
