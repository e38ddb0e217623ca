import Hunks.Log

namespace Hunks

structure Outcome (σ ε α : Type) where
  result : Except ε α
  state : σ
  log : Log

/-- A computation that may fail, keeps the state it reached when it does, and writes a log it
cannot read. -/
def Action (σ ε α : Type) : Type := σ → Outcome σ ε α

namespace Action

variable {σ τ ε δ α β γ : Type}

/-- What a computation does, its log left out. -/
def run (x : Action σ ε α) (s : σ) : Except ε α × σ := ((x s).result, (x s).state)

@[always_inline, inline] protected def pure (a : α) : Action σ ε α := fun s ↦ ⟨.ok a, s, ∅⟩

@[always_inline, inline] protected def bind (x : Action σ ε α) (f : α → Action σ ε β) :
    Action σ ε β := fun s ↦
  match x s with
  | ⟨.ok a, s, log⟩ =>
    match f a s with
    | ⟨result, s, more⟩ => ⟨result, s, log ++ more⟩
  | ⟨.error e, s, log⟩ => ⟨.error e, s, log⟩

instance : Monad (Action σ ε) where
  pure := Action.pure
  bind := Action.bind

@[always_inline, inline] protected def throw (e : ε) : Action σ ε α := fun s ↦ ⟨.error e, s, ∅⟩

@[always_inline, inline] protected def tryCatch (x : Action σ ε α) (handle : ε → Action σ ε α) :
    Action σ ε α := fun s ↦
  match x s with
  | ⟨.ok a, s, log⟩ => ⟨.ok a, s, log⟩
  | ⟨.error e, s, log⟩ =>
    match handle e s with
    | ⟨result, s, more⟩ => ⟨result, s, log ++ more⟩

instance : MonadExceptOf ε (Action σ ε) where
  throw := Action.throw
  tryCatch := Action.tryCatch

instance : MonadStateOf σ (Action σ ε) where
  get := fun s ↦ ⟨.ok s, s, ∅⟩
  set s := fun _ ↦ ⟨.ok (), s, ∅⟩
  modifyGet f := fun s ↦ match f s with | (a, s) => ⟨.ok a, s, ∅⟩

def report (level : Level) (text : String) : Action σ ε Unit :=
  fun s ↦ ⟨.ok (), s, .single ⟨level, text⟩⟩

def debug (text : String) : Action σ ε Unit := report .debug text

def info (text : String) : Action σ ε Unit := report .info text

def warn (text : String) : Action σ ε Unit := report .warning text

def tell (log : Log) : Action σ ε Unit := fun s ↦ ⟨.ok (), s, log⟩

def ofExcept : Except ε α → Action σ ε α
  | .ok a => pure a
  | .error e => throw e

/-- Hands an error to the caller as a value. -/
def attempt (x : Action σ ε α) : Action σ δ (Except ε α) := fun s ↦
  match x s with
  | ⟨result, s, log⟩ => ⟨.ok result, s, log⟩

def mapError (f : ε → δ) (x : Action σ ε α) : Action σ δ α := fun s ↦
  match x s with
  | ⟨.ok a, s, log⟩ => ⟨.ok a, s, log⟩
  | ⟨.error e, s, log⟩ => ⟨.error (f e), s, log⟩

/-- Runs a computation on a part of the state. -/
def focus (part : τ → σ) (replace : σ → τ → τ) (x : Action σ ε α) : Action τ ε α := fun t ↦
  match x (part t) with
  | ⟨result, s, log⟩ => ⟨result, replace s t, log⟩

/-- Starts a computation in a state of its own and returns the state it ends in. -/
def within (s : σ) (x : Action σ ε α) : Action τ ε (α × σ) := fun t ↦
  match x s with
  | ⟨.ok a, s, log⟩ => ⟨.ok (a, s), t, log⟩
  | ⟨.error e, _, log⟩ => ⟨.error e, t, log⟩

@[specialize] def foldlAux (f : β → α → Action σ ε β) : List α → β → σ → Log → Outcome σ ε β
  | [], b, s, log => ⟨.ok b, s, log⟩
  | a :: as, b, s, log =>
    match f b a s with
    | ⟨.ok b, s, more⟩ => foldlAux f as b s (log ++ more)
    | ⟨.error e, s, more⟩ => ⟨.error e, s, log ++ more⟩

@[inline] def foldl (f : β → α → Action σ ε β) (b : β) (as : List α) : Action σ ε β :=
  fun s ↦ foldlAux f as b s ∅

@[inline] def forEach (as : List α) (f : α → Action σ ε Unit) : Action σ ε Unit :=
  foldl (fun _ a ↦ f a) () as

@[specialize] def repeatAux (step : β → Action σ ε (β ⊕ γ)) : Nat → β → σ → Log →
    Outcome σ ε (β ⊕ γ)
  | 0, b, s, log => ⟨.ok (.inl b), s, log⟩
  | n + 1, b, s, log =>
    match step b s with
    | ⟨.ok (.inl b), s, more⟩ => repeatAux step n b s (log ++ more)
    | ⟨.ok (.inr c), s, more⟩ => ⟨.ok (.inr c), s, log ++ more⟩
    | ⟨.error e, s, more⟩ => ⟨.error e, s, log ++ more⟩

/-- Repeats a step until it answers, at most `n` times. -/
@[inline] def repeatUpTo (n : Nat) (step : β → Action σ ε (β ⊕ γ)) (b : β) :
    Action σ ε (β ⊕ γ) := fun s ↦ repeatAux step n b s ∅

@[simp] theorem run_pure (a : α) (s : σ) : run (pure a : Action σ ε α) s = (.ok a, s) := rfl

@[simp] theorem run_throw (e : ε) (s : σ) : run (throw e : Action σ ε α) s = (.error e, s) := rfl

@[simp] theorem run_get (s : σ) : run (get : Action σ ε σ) s = (.ok s, s) := rfl

@[simp] theorem run_set (s s' : σ) : run (set s' : Action σ ε PUnit) s = (.ok ⟨⟩, s') := rfl

@[simp] theorem run_modify (f : σ → σ) (s : σ) :
    run (modify f : Action σ ε PUnit) s = (.ok ⟨⟩, f s) := rfl

@[simp] theorem run_report (level : Level) (text : String) (s : σ) :
    run (report level text : Action σ ε Unit) s = (.ok (), s) := rfl

theorem run_bind (x : Action σ ε α) (f : α → Action σ ε β) (s : σ) :
    run (x >>= f) s =
      match run x s with
      | (.ok a, s) => run (f a) s
      | (.error e, s) => (.error e, s) := by
  show run (Action.bind x f) s = _
  unfold run Action.bind
  rcases x s with ⟨_ | _, _, _⟩ <;> rfl

theorem run_bind_ok {x : Action σ ε α} {f : α → Action σ ε β} {s t : σ} {a : α}
    (h : run x s = (.ok a, t)) : run (x >>= f) s = run (f a) t := by
  rw [run_bind, h]

theorem run_bind_error {x : Action σ ε α} {f : α → Action σ ε β} {s t : σ} {e : ε}
    (h : run x s = (.error e, t)) : run (x >>= f) s = (.error e, t) := by
  rw [run_bind, h]

theorem run_mapError (f : ε → δ) (x : Action σ ε α) (s : σ) :
    run (mapError f x) s = ((run x s).1.mapError f, (run x s).2) := by
  unfold run mapError
  rcases x s with ⟨_ | _, _, _⟩ <;> rfl

theorem run_attempt (x : Action σ ε α) (s : σ) :
    run (attempt x : Action σ δ _) s = (.ok (run x s).1, (run x s).2) := rfl

theorem run_focus (part : τ → σ) (replace : σ → τ → τ) (x : Action σ ε α) (t : τ) :
    run (focus part replace x) t = ((run x (part t)).1, replace (run x (part t)).2 t) := rfl

theorem run_foldlAux (f : β → α → Action σ ε β) (as : List α) (b : β) (s : σ) (log : Log) :
    ((foldlAux f as b s log).result, (foldlAux f as b s log).state) = run (foldl f b as) s := by
  suffices h : ∀ log' : Log, (foldlAux f as b s log).result = (foldlAux f as b s log').result ∧
      (foldlAux f as b s log).state = (foldlAux f as b s log').state by
    exact Prod.ext (h ∅).1 (h ∅).2
  induction as generalizing b s log with
  | nil => exact fun _ ↦ ⟨rfl, rfl⟩
  | cons a as ih =>
    intro log'
    simp only [foldlAux]
    rcases f b a s with ⟨_ | _, _, _⟩
    · exact ⟨rfl, rfl⟩
    · exact ih ..

@[simp] theorem run_foldl_nil (f : β → α → Action σ ε β) (b : β) (s : σ) :
    run (foldl f b []) s = (.ok b, s) := rfl

theorem run_foldl_cons (f : β → α → Action σ ε β) (b : β) (a : α) (as : List α) (s : σ) :
    run (foldl f b (a :: as)) s = run (f b a >>= fun b ↦ foldl f b as) s := by
  rw [run_bind]
  simp only [run, foldl, foldlAux]
  rcases f b a s with ⟨_ | _, _, _⟩
  · rfl
  · exact run_foldlAux f as ..

theorem run_repeatAux (step : β → Action σ ε (β ⊕ γ)) (n : Nat) (b : β) (s : σ) (log : Log) :
    ((repeatAux step n b s log).result, (repeatAux step n b s log).state) =
      run (repeatUpTo n step b) s := by
  suffices h : ∀ log' : Log, (repeatAux step n b s log).result = (repeatAux step n b s log').result ∧
      (repeatAux step n b s log).state = (repeatAux step n b s log').state by
    exact Prod.ext (h ∅).1 (h ∅).2
  induction n generalizing b s log with
  | zero => exact fun _ ↦ ⟨rfl, rfl⟩
  | succ n ih =>
    intro log'
    simp only [repeatAux]
    rcases step b s with ⟨_ | (_ | _), _, _⟩
    · exact ⟨rfl, rfl⟩
    · exact ih ..
    · exact ⟨rfl, rfl⟩

@[simp] theorem run_repeatUpTo_zero (step : β → Action σ ε (β ⊕ γ)) (b : β) (s : σ) :
    run (repeatUpTo 0 step b) s = (.ok (.inl b), s) := rfl

theorem run_repeatUpTo_succ (step : β → Action σ ε (β ⊕ γ)) (n : Nat) (b : β) (s : σ) :
    run (repeatUpTo (n + 1) step b) s =
      run (step b >>= fun
        | .inl b => repeatUpTo n step b
        | .inr c => pure (.inr c)) s := by
  rw [run_bind]
  simp only [run, repeatUpTo, repeatAux]
  rcases step b s with ⟨_ | (_ | _), _, _⟩
  · rfl
  · exact run_repeatAux step n ..
  · rfl

end Action

end Hunks
