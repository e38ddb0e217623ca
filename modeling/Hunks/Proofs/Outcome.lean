import Mathlib
import Hunks.Action

namespace Hunks

/-- An element of a numbered list has as its number the count of those in front of it. -/
theorem getElem?_of_zipIdx_eq {α : Type} {as : List α} {a : α} {i : Nat} {done rest : List (α × Nat)}
    (h : as.zipIdx = done ++ (a, i) :: rest) : as[done.length]? = some a ∧ i = done.length := by
  have hget : as.zipIdx[done.length]? = some (a, i) := by simp [h]
  rw [List.getElem?_zipIdx, Option.map_eq_some_iff] at hget
  obtain ⟨a', ha, he⟩ := hget
  cases he
  exact ⟨ha, Nat.zero_add _⟩

namespace Action

variable {σ τ ε δ α β γ : Type}

theorem result_eq {x : Action σ ε α} {s : σ} {r : Except ε α} (h : (x s).result = r) :
    run x s = (r, (x s).state) := by
  rw [← h]
  rfl

@[simp] theorem run_map (f : α → β) (x : Action σ ε α) (s : σ) :
    run (f <$> x) s = ((run x s).1.map f, (run x s).2) := by
  show run (x >>= fun a ↦ pure (f a)) s = _
  rw [run_bind]
  rcases run x s with ⟨_ | _, _⟩ <;> rfl

@[simp] theorem run_debug (text : String) (s : σ) :
    run (debug text : Action σ ε Unit) s = (.ok (), s) := rfl

@[simp] theorem run_info (text : String) (s : σ) :
    run (info text : Action σ ε Unit) s = (.ok (), s) := rfl

@[simp] theorem run_warn (text : String) (s : σ) :
    run (warn text : Action σ ε Unit) s = (.ok (), s) := rfl

@[simp] theorem run_ofExcept (r : Except ε α) (s : σ) :
    run (ofExcept r : Action σ ε α) s = (r, s) := by
  cases r <;> rfl

theorem run_attempt_eq_ok {x : Action σ ε α} {s t : σ} {r : Except ε α} :
    run (attempt x : Action σ δ _) s = (.ok r, t) ↔ run x s = (r, t) := by
  rw [run_attempt]
  rcases run x s with ⟨r', t'⟩
  simp

theorem run_within (s : σ) (x : Action σ ε α) (t : τ) :
    run (within s x : Action τ ε (α × σ)) t = ((run x s).1.map (·, (run x s).2), t) := by
  unfold run within
  rcases x s with ⟨_ | _, _, _⟩ <;> rfl

/-- What a sequence of two computations returned, its parts have. -/
theorem run_bind_eq_ok {x : Action σ ε α} {f : α → Action σ ε β} {s u : σ} {b : β} :
    run (x >>= f) s = (.ok b, u) ↔ ∃ a t, run x s = (.ok a, t) ∧ run (f a) t = (.ok b, u) := by
  rw [run_bind]
  rcases run x s with ⟨e | a, t⟩
  · simp
  · simp

/-- A sequence of two computations fails in one of its parts. -/
theorem run_bind_eq_error {x : Action σ ε α} {f : α → Action σ ε β} {s u : σ} {e : ε} :
    run (x >>= f) s = (.error e, u) ↔ run x s = (.error e, u) ∨
      ∃ a t, run x s = (.ok a, t) ∧ run (f a) t = (.error e, u) := by
  rw [run_bind]
  rcases run x s with ⟨e' | a, t⟩
  · simp
  · simp

/-- A loop that fails has gone through some elements and fails at the next one. -/
theorem of_run_foldl_eq_error {f : β → α → Action σ ε β} {as : List α} {b : β} {s u : σ} {e : ε}
    (hr : run (foldl f b as) s = (.error e, u)) :
    ∃ done a rest b' t, as = done ++ a :: rest ∧ run (foldl f b done) s = (.ok b', t) ∧
      run (f b' a) t = (.error e, u) := by
  induction as generalizing b s with
  | nil => cases hr
  | cons a as ih =>
    rw [run_foldl_cons, run_bind_eq_error] at hr
    rcases hr with hr | ⟨next, t, hfirst, hr⟩
    · exact ⟨[], a, as, b, s, rfl, rfl, hr⟩
    · obtain ⟨done, a', rest, b', t', rfl, hdone, hlast⟩ := ih hr
      refine ⟨a :: done, a', rest, b', t', rfl, ?_, hlast⟩
      rw [run_foldl_cons, run_bind_ok hfirst]
      exact hdone

theorem of_run_forEach_eq_error {f : α → Action σ ε Unit} {as : List α} {s u : σ} {e : ε}
    (hr : run (forEach as f) s = (.error e, u)) :
    ∃ done a rest t, as = done ++ a :: rest ∧ run (forEach done f) s = (.ok (), t) ∧
      run (f a) t = (.error e, u) := by
  obtain ⟨done, a, rest, _, t, hsplit, hdone, hlast⟩ := of_run_foldl_eq_error hr
  exact ⟨done, a, rest, t, hsplit, hdone, hlast⟩

/-- A loop in which nothing changes the state. -/
theorem run_forEach_idle {f : α → Action σ ε Unit} {as : List α} {s : σ}
    (h : ∀ a ∈ as, run (f a) s = (.ok (), s)) : run (forEach as f) s = (.ok (), s) := by
  induction as with
  | nil => rfl
  | cons a as ih =>
    obtain ⟨ha, has⟩ := List.forall_mem_cons.mp h
    rw [forEach, run_foldl_cons, run_bind_ok ha]
    exact ih has

theorem run_map_eq_ok {f : α → β} {x : Action σ ε α} {s t : σ} {b : β} :
    run (f <$> x) s = (.ok b, t) ↔ ∃ a, run x s = (.ok a, t) ∧ f a = b := by
  rw [run_map]
  rcases run x s with ⟨e | a, t'⟩
  · simp [Except.map]
  · simp [Except.map, and_comm]

theorem run_mapError_eq_ok {f : ε → δ} {x : Action σ ε α} {s t : σ} {a : α} :
    run (mapError f x) s = (.ok a, t) ↔ run x s = (.ok a, t) := by
  rw [run_mapError]
  rcases run x s with ⟨_ | _, _⟩ <;> simp [Except.mapError]

theorem mapError_eq_error {f : ε → δ} {r : Except ε α} {e : δ} :
    r.mapError f = .error e ↔ ∃ e', r = .error e' ∧ f e' = e := by
  cases r <;> simp [Except.mapError]

theorem run_within_eq_ok {x : Action σ ε α} {s s' : σ} {t t' : τ} {a : α} :
    run (within s x : Action τ ε (α × σ)) t = (.ok (a, s'), t') ↔
      run x s = (.ok a, s') ∧ t = t' := by
  rw [run_within]
  rcases run x s with ⟨_ | _, _⟩ <;> simp [Except.map]

theorem run_within_eq_error {x : Action σ ε α} {s : σ} {t t' : τ} {e : ε} :
    run (within s x : Action τ ε (α × σ)) t = (.error e, t') ↔ (run x s).1 = .error e ∧ t = t' := by
  rw [run_within]
  rcases run x s with ⟨_ | _, _⟩ <;> simp [Except.map]

theorem run_focus_eq_ok {part : τ → σ} {replace : σ → τ → τ} {x : Action σ ε α} {t t' : τ}
    {a : α} : run (focus part replace x) t = (.ok a, t') ↔
      ∃ s, run x (part t) = (.ok a, s) ∧ replace s t = t' := by
  rw [run_focus]
  rcases run x (part t) with ⟨r, s⟩
  simp

/-- A computation goes on behind a check that it passes. -/
theorem run_guard_eq_ok {c : Prop} [Decidable c] {e : ε} {f : PUnit → Action σ ε α} {s t : σ}
    {a : α} : run (if c then throw e >>= f else f ⟨⟩) s = (.ok a, t) ↔
      ¬ c ∧ run (f ⟨⟩) s = (.ok a, t) := by
  by_cases hc : c
  · simp [hc, run_bind]
  · simp [hc]

/-- A computation returns, and each of its reports has a property. -/
def Runs (Q : Report → Prop) (x : Action σ ε α) (s : σ) (a : α) (t : σ) : Prop :=
  run x s = (.ok a, t) ∧ ∀ report ∈ (x s).log.toList, Q report

variable {Q : Report → Prop}

theorem Runs.of_run {x : Action σ ε α} {s t : σ} {a : α} (h : run x s = (.ok a, t)) :
    Runs (fun _ ↦ True) x s a t :=
  ⟨h, fun _ _ ↦ trivial⟩

theorem runs_bind {x : Action σ ε α} {f : α → Action σ ε β} {s u : σ} {b : β} :
    Runs Q (x >>= f) s b u ↔ ∃ a t, Runs Q x s a t ∧ Runs Q (f a) t b u := by
  have hlog : ∀ a t, run x s = (.ok a, t) →
      ((x >>= f) s).log.toList = (x s).log.toList ++ (f a t).log.toList := by
    intro a t h
    show (Action.bind x f s).log.toList = _
    unfold run at h
    unfold Action.bind
    rcases hx : x s with ⟨_ | _, _, log⟩
    · rw [hx] at h
      cases h
    · rw [hx] at h
      cases h
      exact Log.toList_append ..
  constructor
  · rintro ⟨hr, hQ⟩
    obtain ⟨a, t, hx, hf⟩ := run_bind_eq_ok.mp hr
    simp only [hlog a t hx, List.mem_append] at hQ
    exact ⟨a, t, ⟨hx, fun report hm ↦ hQ report (Or.inl hm)⟩, hf, fun report hm ↦ hQ report (Or.inr hm)⟩
  · rintro ⟨a, t, ⟨hx, hQ⟩, hf, hQ'⟩
    refine ⟨run_bind_eq_ok.mpr ⟨a, t, hx, hf⟩, ?_⟩
    simp only [hlog a t hx, List.mem_append]
    exact fun report hm ↦ hm.elim (hQ report) (hQ' report)

theorem runs_report {level : Level} {text : String} {s t : σ} {u : Unit} :
    Runs Q (report level text : Action σ ε Unit) s u t ↔ s = t ∧ Q ⟨level, text⟩ := by
  simp [Runs, report]

theorem toList_foldlAux (f : β → α → Action σ ε β) (as : List α) (b : β) (s : σ) (log : Log) :
    (foldlAux f as b s log).log.toList = log.toList ++ (foldl f b as s).log.toList := by
  induction as generalizing b s log with
  | nil => simp [foldlAux, foldl]
  | cons a as ih =>
    simp only [foldl, foldlAux]
    rcases f b a s with ⟨_ | _, _, more⟩
    · simp
    · dsimp only
      rw [ih, ih]
      simp [foldl]

theorem runs_foldl_cons {f : β → α → Action σ ε β} {b b' : β} {a : α} {as : List α} {s u : σ} :
    Runs Q (foldl f b (a :: as)) s b' u ↔ Runs Q (f b a >>= fun b ↦ foldl f b as) s b' u := by
  have hlog : (foldl f b (a :: as) s).log.toList = ((f b a >>= fun b ↦ foldl f b as) s).log.toList := by
    show _ = (Action.bind (f b a) (fun b ↦ foldl f b as) s).log.toList
    simp only [foldl, foldlAux, Action.bind]
    rcases f b a s with ⟨_ | _, _, more⟩
    · simp
    · dsimp only
      rw [toList_foldlAux, Log.toList_append, Log.toList_append]
      rfl
  rw [Runs, Runs, run_foldl_cons, hlog]

/-- An invariant that ties the elements a loop has gone through to its value and its state. -/
theorem Runs.foldl_invariant {f : β → α → Action σ ε β} (I : List α → β → σ → Prop)
    {as : List α} (step : ∀ done a rest b s b' s', as = done ++ a :: rest → I done b s →
      Runs Q (f b a) s b' s' → I (done ++ [a]) b' s')
    {b b' : β} {s s' : σ} (h : I [] b s) (hr : Runs Q (foldl f b as) s b' s') : I as b' s' := by
  suffices hs : ∀ rest done b s, as = done ++ rest → I done b s →
      Runs Q (foldl f b rest) s b' s' → I as b' s' from hs as [] b s rfl h hr
  intro rest
  induction rest with
  | nil =>
    rintro done b s ha hI ⟨hr, -⟩
    cases hr
    rwa [ha, List.append_nil]
  | cons a rest ih =>
    intro done b s ha hI hr
    rw [runs_foldl_cons, runs_bind] at hr
    obtain ⟨b₁, s₁, hstep, hrest⟩ := hr
    refine ih (done ++ [a]) b₁ s₁ (by simpa using ha) ?_ hrest
    exact step done a rest b s b₁ s₁ ha hI hstep

theorem Runs.forEach_invariant {f : α → Action σ ε Unit} (I : List α → σ → Prop)
    {as : List α} (step : ∀ done a rest s s', as = done ++ a :: rest → I done s →
      Runs Q (f a) s () s' → I (done ++ [a]) s')
    {s s' : σ} (h : I [] s) (hr : Runs Q (forEach as f) s () s') : I as s' :=
  Runs.foldl_invariant (fun done (_ : Unit) s ↦ I done s)
    (fun done a rest _ s _ s' ha hI hr ↦ step done a rest s s' ha hI hr) h hr

theorem foldl_invariant {f : β → α → Action σ ε β} (I : List α → β → σ → Prop)
    {as : List α} (step : ∀ done a rest b s b' s', as = done ++ a :: rest → I done b s →
      run (f b a) s = (.ok b', s') → I (done ++ [a]) b' s')
    {b b' : β} {s s' : σ} (h : I [] b s) (hr : run (foldl f b as) s = (.ok b', s')) :
    I as b' s' :=
  Runs.foldl_invariant I (fun done a rest b s b' s' ha hI hr ↦ step done a rest b s b' s' ha hI hr.1) h
    (.of_run hr)

theorem forEach_invariant {f : α → Action σ ε Unit} (I : List α → σ → Prop)
    {as : List α} (step : ∀ done a rest s s', as = done ++ a :: rest → I done s →
      run (f a) s = (.ok (), s') → I (done ++ [a]) s')
    {s s' : σ} (h : I [] s) (hr : run (forEach as f) s = (.ok (), s')) : I as s' :=
  foldl_invariant (fun done (_ : Unit) s ↦ I done s)
    (fun done a rest _ s _ s' ha hI hr ↦ step done a rest s s' ha hI hr) h hr

/-- A loop that appends one result for each element. -/
theorem foldl_push {f : Array β → α → Action σ ε (Array β)} (R : Nat → α → β → Prop)
    (step : ∀ found a s found' s', run (f found a) s = (.ok found', s') →
      ∃ b, found' = found.push b ∧ R found.size a b)
    {as : List α} {s s' : σ} {found : Array β} (hr : run (foldl f #[] as) s = (.ok found, s')) :
    found.size = as.length ∧ ∀ i a, as[i]? = some a → ∃ b, found[i]? = some b ∧ R i a b := by
  refine foldl_invariant (fun done (found : Array β) (_ : σ) ↦ found.size = done.length ∧
    ∀ i a, done[i]? = some a → ∃ b, found[i]? = some b ∧ R i a b) ?_ (by simp) hr
  rintro done a rest found s found' s' - ⟨hsize, hfound⟩ hstep
  obtain ⟨b, rfl, hb⟩ := step found a s found' s' hstep
  refine ⟨by simp [hsize], fun i a' ha ↦ ?_⟩
  by_cases hi : i < done.length
  · rw [List.getElem?_append_left hi] at ha
    obtain ⟨b', hb', hR⟩ := hfound i a' ha
    exact ⟨b', by rw [Array.getElem?_push, if_neg (by omega), hb'], hR⟩
  · rw [List.getElem?_append_right (by omega), List.getElem?_singleton] at ha
    split at ha
    · cases ha
      have he : i = found.size := by omega
      subst he
      exact ⟨b, Array.getElem?_push_size, hb⟩
    · cases ha

/-- A loop over the places of a list that takes up the element at each place. -/
theorem run_foldl_range {f : β → Nat → Action σ ε β} {g : β → α → β} {s : σ} {as : List α}
    (h : ∀ i a b, as[i]? = some a → run (f b i) s = (.ok (g b a), s)) (b : β) :
    run (foldl f b (List.range as.length)) s = (.ok (as.foldl g b), s) := by
  suffices hs : ∀ done rest, as = done ++ rest →
      run (foldl f (done.foldl g b) (List.range' done.length rest.length)) s =
        (.ok (as.foldl g b), s) by
    rw [List.range_eq_range']
    exact hs [] as rfl
  intro done rest
  induction rest generalizing done with
  | nil =>
    intro ha
    rw [ha, List.append_nil]
    rfl
  | cons a rest ih =>
    intro ha
    have hget : as[done.length]? = some a := by simp [ha]
    have hrest := ih (done ++ [a]) (by simp [ha])
    rw [List.foldl_append, List.length_append] at hrest
    rw [List.length_cons, List.range'_succ, run_foldl_cons, run_bind_ok (h _ a _ hget)]
    exact hrest

end Action

end Hunks
