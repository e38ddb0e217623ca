import Mathlib
import Hunks.Proofs.Host.History

namespace Hunks

open Hunks.Action (run)

namespace Program

variable {program : Program} {created : List Label}

/-- The labels are the first ones of their names among those that were created. -/
def Names (program : Program) (created : List Label) : Prop :=
  ∀ name, program.labels.toList.filter (fun label ↦ label.name = name) =
    (created.find? fun label ↦ label.name = name).toList

theorem Names.address?_eq (h : program.Names created) (name : String) :
    program.address? name = (created.find? fun label ↦ label.name = name).map Label.address := by
  rw [address?, ← Array.find?_toList, ← List.head?_filter, h name, Option.head?_toList]

theorem Names.addLabel (h : program.Names created) (label : Label) :
    (program.addLabel label).2.Names (created ++ [label]) := by
  intro name
  have haddress := h.address?_eq label.name
  rw [List.find?_append]
  cases hfirst : created.find? fun other ↦ other.name = label.name with
  | some first =>
    rw [hfirst, Option.map_some] at haddress
    rw [Program.addLabel, haddress]
    dsimp only
    rw [h name]
    by_cases hn : label.name = name
    · rw [← hn, hfirst, Option.some_or]
    · rw [List.find?_singleton, if_neg (by simpa using hn), Option.or_none]
  | none =>
    rw [hfirst, Option.map_none] at haddress
    rw [addLabel_eq label haddress, Array.toList_append, List.filter_append, h name]
    by_cases hn : label.name = name
    · rw [← hn, hfirst, Option.none_or]
      simp
    · simp [hn]

/-- A name has one label, which stands at its address. -/
theorem Names.count_labelsAt (h : program.Names created) (name : String) (address : Int) :
    (program.labelsAt address).count name = if program.address? name = some address then 1 else 0 := by
  rw [labelsAt, List.count, List.countP_map, List.countP_filter]
  have hcount : ∀ labels : List Label,
      labels.countP (fun label ↦ ((· == name) ∘ Label.name) label && label.address = address) =
        (labels.filter fun label ↦ label.name = name).countP fun label ↦ label.address = address := by
    intro labels
    rw [List.countP_filter]
    congr 1
    funext label
    simp [beq_eq_decide, Bool.and_comm]
  rw [hcount, h name, h.address?_eq]
  cases created.find? fun label ↦ label.name = name with
  | none => rfl
  | some first => simp [List.countP_cons]

theorem address?_addLabel_self (label : Label) :
    (program.addLabel label).2.address? label.name = some (program.addLabel label).1 := by
  cases ha : program.address? label.name with
  | some address =>
    rw [addLabel, ha]
    exact ha
  | none =>
    rw [addLabel_eq label ha, address?_append, ha, Option.none_or]
    simp

end Program

namespace Host

variable {α : Type} {operation : Operation} {host : Host}

/-- What an operation answers if it is not made to fail. -/
def answer (host : Host) (operation : Operation) (a : α) : Except AccessError α :=
  if host.limits.lookup operation = some 0 then .error (.injected operation) else .ok a

theorem run_ask_answer (operation : Operation) (f : Program → α) (host : Host) :
    (run (ask operation fun program ↦ .ok (f program)) host).1 = host.answer operation (f host.program) := by
  obtain ⟨limits, henter, -⟩ := run_enter_eq operation host
  rw [ask, answer]
  split at henter <;> rename_i hlimit
  · rw [if_pos hlimit, Action.run_bind_error henter]
  · rw [if_neg hlimit, Action.run_bind_ok henter]
    rfl

/-- Neither the start of an operation nor a note changes labels. -/
theorem labels_frame (labels : Array Label) : Frame fun host ↦ host.program.labels = labels where
  enter operation host h := by
    obtain ⟨limits, hrun, -⟩ := run_enter_eq operation host
    rwa [hrun]
  note _ _ h _ hl := hl.trans h

end Host

namespace Call

variable {call : Call} {host : Host} {created : List Label}

theorem labels_of_run (hl : call.label? = none) :
    (run call.perform host).2.program.labels = host.program.labels := by
  refine perform_preserves (Host.labels_frame host.program.labels) (fun request _ host h ↦ ?_) (fun label he ↦ ?_)
    host rfl
  · obtain ⟨limits, hrun⟩ := request.run_perform_eq host
    rw [hrun]
    split
    · exact h
    · split
      · exact h
      · exact h
  · rw [hl] at he
    cases he

theorem names_of_createLabel (h : host.program.Names created) (call : Call) (label : Label)
    (hl : call.label? = some label) :
    let x : Host.Access Unit := do let _ ← Host.createLabel label.address label.name label.origin
    (run x host).2.program.Names (created ++ (Host.worked [(call, (run x host).1)]).filterMap label?) := by
  intro x
  obtain ⟨limits, hrun, -⟩ := Host.run_createLabel_eq label.address label.name label.origin host
  by_cases hlimit : host.limits.lookup .createLabel = some 0
  · rw [if_pos hlimit] at hrun
    rw [Action.run_bind_error hrun]
    simpa [Host.worked] using h
  · rw [if_neg hlimit] at hrun
    rw [Action.run_bind_ok hrun]
    simpa [Host.worked, hl] using h.addLabel label

/-- A call that works creates the label that it asks for, and one that fails creates none. -/
theorem names_of_run (h : host.program.Names created) (call : Call) :
    (run call.perform host).2.program.Names
      (created ++ (Host.worked [(call, (run call.perform host).1)]).filterMap label?) := by
  cases hl : call.label? with
  | none =>
    have hnone : (Host.worked [(call, (run call.perform host).1)]).filterMap label? = [] := by
      rw [List.filterMap_eq_nil_iff]
      rintro other hm
      rw [(Host.mem_worked.mp hm).1, hl]
    intro name
    rw [hnone, List.append_nil, labels_of_run hl, h name]
  | some label =>
    cases call with
    | createLabel address name origin =>
      exact names_of_createLabel h (.createLabel address name origin) ⟨address, name, origin⟩ rfl
    | declareFunction address name parameters =>
      obtain ⟨limits, henter, -⟩ := Host.run_enter_eq .declareFunction host
      rw [perform, Host.declareFunction]
      split at henter
      · rw [Action.run_bind_error henter]
        simpa [Host.worked] using h
      · rw [Action.run_bind_ok henter, Action.run_bind_ok (Host.run_change _ _)]
        -- The function is known by now, also if its label is refused.
        let next : Host := ⟨host.program.setFunction address ⟨name, parameters⟩, limits⟩
        have hnext : next.program.Names created := h
        exact names_of_createLabel hnext (.declareFunction address name parameters)
          ⟨address, name, Label.imported⟩ rfl
    | _ => cases hl

end Call

namespace Host

variable {host : Host} {limits : List (Operation × Nat)} {deeds : List (Call × Except AccessError Unit)}

namespace History

theorem names (h : History ⟨.empty, limits⟩ deeds host) :
    host.program.Names ((worked deeds).filterMap Call.label?) := by
  induction h with
  | nil => exact fun name ↦ rfl
  | limit limits _ ih => exact ih
  | perform call h hp ih =>
    rw [worked_append, List.filterMap_append]
    exact Call.names_of_run ih call

theorem run_lookupGlobal_answer (h : History ⟨.empty, limits⟩ deeds host) (name : String) :
    (run (lookupGlobal name) host).1 = host.answer .lookupGlobal
      ((((worked deeds).filterMap Call.label?).find? fun label ↦ label.name = name).map Label.address) := by
  rw [← h.names.address?_eq]
  exact run_ask_answer .lookupGlobal (·.address? name) host

/-- Whatever calls have failed, each name that was created has one label, which is that of the first call that
created it. It stands at the address that is found for the name, which no later call changes, and who creates a
label gets the address of its name. -/
theorem labels_unique (h : History ⟨.empty, limits⟩ deeds host) (name : String) :
    let first := ((worked deeds).filterMap Call.label?).find? fun label ↦ label.name = name
    (host.program.labels.toList.filter fun label ↦ label.name = name) = first.toList ∧
      (run (lookupGlobal name) host).1 = host.answer .lookupGlobal (first.map Label.address) ∧
      (∀ address, (host.program.labelsAt address).count name =
        if first.map Label.address = some address then 1 else 0) ∧
      (∀ address more last, first.map Label.address = some address → host.History more last →
        (run (lookupGlobal name) last).1 = last.answer .lookupGlobal (some address)) ∧
      ∀ address origin, ∃ answer, (run (createLabel address name origin) host).1 = host.answer .createLabel answer ∧
        (host.limits.lookup .createLabel ≠ some 0 →
          (run (createLabel address name origin) host).2.program.address? name = some answer) := by
  intro first
  have hnames := h.names
  refine ⟨hnames name, h.run_lookupGlobal_answer name, fun address ↦ ?_, fun address more last ha hmore ↦ ?_,
    fun address origin ↦ ?_⟩
  · rw [hnames.count_labelsAt, hnames.address?_eq]
  · obtain ⟨label, hfirst, rfl⟩ := Option.map_eq_some_iff.mp ha
    dsimp only [first] at hfirst
    rw [(h.append hmore).run_lookupGlobal_answer, worked_append, List.filterMap_append, List.find?_append, hfirst]
    rfl
  · obtain ⟨limits, hrun, -⟩ := run_createLabel_eq address name origin host
    by_cases hlimit : host.limits.lookup .createLabel = some 0
    · refine ⟨0, ?_, fun hn ↦ absurd hlimit hn⟩
      rw [hrun, Host.answer, if_pos hlimit, if_pos hlimit]
    · refine ⟨(host.program.addLabel ⟨address, name, origin⟩).1, ?_, fun _ ↦ ?_⟩
      · rw [hrun, Host.answer, if_neg hlimit, if_neg hlimit]
      · rw [hrun, if_neg hlimit]
        exact Program.address?_addLabel_self ⟨address, name, origin⟩

/-- A function gives its name an address, one whose label is refused gives none, and neither does a second label
of a name. -/
theorem labels_unique_sample :
    let main : Call := .declareFunction 0x2000 "main" []
    let exit : Call := .declareFunction 0x3000 "exit" []
    let again : Call := .createLabel 0x1000 "main" Label.userDefined
    let first := (run main.perform (.ofProgram .empty)).2
    let second := (run exit.perform { first with limits := [(.createLabel, 0)] }).2
    let host := (run again.perform { second with limits := [] }).2
    History (.ofProgram .empty) [(main, .ok ()), (exit, .error (.injected .createLabel)), (again, .ok ())] host ∧
      (host.program.labels.toList.filter fun label ↦ label.name = "main") = [⟨0x2000, "main", Label.imported⟩] ∧
      (run (lookupGlobal "main") host).1 = .ok (some 0x2000) ∧ (run (lookupGlobal "exit") host).1 = .ok none ∧
      (host.program.labelsAt 0x2000).count "main" = 1 ∧ (host.program.labelsAt 0x1000).count "main" = 0 ∧
      (∀ more last, host.History more last →
        (run (lookupGlobal "main") last).1 = last.answer .lookupGlobal (some 0x2000)) ∧
      (run (createLabel 0x4000 "main" Label.analysis) host).1 = .ok 0x2000 := by
  intro main exit again first second host
  have hstart : History (.ofProgram .empty) [] _ := .nil
  have hfirst := hstart.perform main trivial
  have hsecond := (hfirst.limit [(.createLabel, 0)]).perform exit trivial
  have hlast := (hsecond.limit []).perform again trivial
  have h : History ⟨.empty, []⟩
    [(main, .ok ()), (exit, .error (.injected .createLabel)), (again, .ok ())] host := hlast
  obtain ⟨hlabels, hlookup, hcount, hkept, hcreate⟩ := h.labels_unique "main"
  obtain ⟨-, hnone, -⟩ := h.labels_unique "exit"
  obtain ⟨address, hanswer, haddress⟩ := hcreate 0x4000 Label.analysis
  have hat : (run (createLabel 0x4000 "main" Label.analysis) host).2.program.address? "main" = some 0x2000 := by
    decide
  rw [haddress (by decide), Option.some.injEq] at hat
  rw [hat] at hanswer
  exact ⟨h, hlabels, hlookup, hnone, hcount 0x2000, hcount 0x1000, fun more last hmore ↦ hkept _ more last rfl hmore,
    hanswer⟩

end History

end Host

end Hunks
