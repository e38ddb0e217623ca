import Mathlib
import Hunks.Proofs.Host.Extends
import Hunks.Proofs.InStep

namespace Hunks

open Hunks.Action (run Abreast InStep Preserves Relates Shared)

namespace Operation

/-- The operations that read or change memory. -/
def onMemory : List Operation :=
  [createBlock, getBlock, setBytes, readBytes, readByte, readShort, readInt, contains, find, join, convert]

end Operation

namespace Host

variable {α : Type} {R : Host → Host → Prop} {P : Host → Prop} {host : Host}
  {safe : Operation → Prop} {operation : Operation}

/-- Some operations never fail by themselves. -/
def Spares (safe : Operation → Prop) (host : Host) : Prop :=
  ∀ operation, safe operation → host.limits.lookup operation = none

theorem Reliable.spares (h : host.Reliable) : host.Spares safe := by
  intro operation _
  rw [h]
  rfl

theorem Spares.run_enter (h : host.Spares safe) (ho : safe operation) :
    run (enter operation) host = (.ok (), host) := by
  rw [enter, Action.run_bind, Action.run_get]
  dsimp only
  rw [h operation ho]
  rfl

theorem Spares.run_ask (h : host.Spares safe) (ho : safe operation)
    (f : Program → Except AccessError α) :
    run (ask operation f) host = (f host.program, host) := by
  rw [ask, Action.run_bind_ok (h.run_enter ho), Action.run_bind, Action.run_get]
  dsimp only
  rw [Action.run_ofExcept]

theorem lookup_spend (operation other : Operation) (limits : List (Operation × Nat)) :
    (spend operation limits).lookup other =
      if operation = other then (limits.lookup other).map (· - 1) else limits.lookup other := by
  induction limits with
  | nil => simp [spend]
  | cons limit limits ih =>
    obtain ⟨first, n⟩ := limit
    rw [spend]
    by_cases hfirst : first = operation
    · subst hfirst
      by_cases ho : first = other
      · subst ho
        simp
      · simp [ho, List.lookup_cons, beq_false_of_ne (Ne.symm ho)]
    · by_cases ho : first = other
      · subst ho
        simp [hfirst, Ne.symm hfirst]
      · simp [hfirst, List.lookup_cons, beq_false_of_ne (Ne.symm ho), ih]

/-- An operation begins unless its limit is used up, and only counts down its own limit. -/
theorem run_enter_eq (operation : Operation) (host : Host) : ∃ limits, run (enter operation) host =
      (if host.limits.lookup operation = some 0 then .error (.injected operation) else .ok (),
        { host with limits }) ∧
    ∀ other, limits.lookup other =
      if operation = other then (host.limits.lookup other).map (· - 1) else host.limits.lookup other := by
  rw [enter, Action.run_bind, Action.run_get]
  dsimp only
  split <;> rename_i hl
  · refine ⟨host.limits, by rw [hl]; rfl, fun other ↦ ?_⟩
    split <;> rename_i ho
    · rw [← ho, hl]
      rfl
    · rfl
  · exact ⟨spend operation host.limits, by simp_all, fun other ↦ lookup_spend operation other host.limits⟩
  · refine ⟨host.limits, by rw [hl]; rfl, fun other ↦ ?_⟩
    split <;> rename_i ho
    · rw [← ho, hl]
      rfl
    · rfl

/-- A host sets a label unless it has failed to do so before. -/
theorem run_createLabel_eq (address : Int) (name origin : String) (host : Host) :
    ∃ limits, run (createLabel address name origin) host =
      (if host.limits.lookup .createLabel = some 0 then (.error (.injected .createLabel), { host with limits })
      else (.ok (host.program.addLabel ⟨address, name, origin⟩).1,
        ⟨(host.program.addLabel ⟨address, name, origin⟩).2, limits⟩)) ∧
    limits.lookup .createLabel = (host.limits.lookup .createLabel).map (· - 1) := by
  obtain ⟨limits, henter, hlimits⟩ := run_enter_eq .createLabel host
  refine ⟨limits, ?_, (hlimits .createLabel).trans (if_pos rfl)⟩
  rw [createLabel]
  split at henter <;> rename_i hlimit
  · rw [if_pos hlimit, Action.run_bind_error henter]
  · rw [if_neg hlimit, Action.run_bind_ok henter]
    rfl

theorem spares_lasting (safe : Operation → Prop) : Lasting (Spares safe) where
  enter operation host h := by
    rw [enter, Action.run_bind, Action.run_get]
    dsimp only
    split
    · exact h
    · intro other ho
      rw [Action.run_set]
      dsimp only
      rw [lookup_spend, h other ho]
      simp
    · exact h
  relabel _ _ h _ _ := h

theorem Lasting.and {Q : Host → Prop} (hP : Lasting P) (hQ : Lasting Q) :
    Lasting fun host ↦ P host ∧ Q host where
  enter operation host h := ⟨hP.enter operation host h.1, hQ.enter operation host h.2⟩
  relabel host program h hm hl := ⟨hP.relabel host program h.1 hm hl, hQ.relabel host program h.2 hm hl⟩

/-- Hosts that no question about their memory tells apart. -/
structure Twins (R : Host → Host → Prop) : Prop where
  memory : ∀ s t, R s t → s.program.memory = t.program.memory
  enter : ∀ operation ∈ Operation.onMemory, (enter operation).InStep R fun _ ↦ True

/-- Twins that stay so when both are to take a label or a note, even if one of them fails to. -/
structure Noting (R : Host → Host → Prop) : Prop extends Twins R where
  createLabel : ∀ address name origin, (createLabel address name origin).Relates R
  declareFunction : ∀ address name parameters, (declareFunction address name parameters).Relates R
  addEntryPoint : ∀ address, (addEntryPoint address).Relates R
  createData : ∀ address type, (createData address type).Relates R
  addReference : ∀ source target, (addReference source target).Relates R

/-- Hosts that stay in a relation when both are to take a label or a note, and that a search through
their memory does not tell apart, but for the error when they cannot read at a place. -/
structure Seen (D : AccessError → AccessError → Prop) (R : Host → Host → Prop) : Prop where
  sizes : ∀ s t, R s t → s.program.memory.map Region.size = t.program.memory.map Region.size
  readBytes : ∀ address size, (readBytes address size).Abreast R D
  contains : ∀ address, (contains address).Abreast R D
  find : ∀ start pattern, (find start pattern).Abreast R D
  createLabel : ∀ address name origin, (createLabel address name origin).Relates R
  declareFunction : ∀ address name parameters, (declareFunction address name parameters).Relates R
  addEntryPoint : ∀ address, (addEntryPoint address).Relates R
  createData : ∀ address type, (createData address type).Relates R
  addReference : ∀ source target, (addReference source target).Relates R

/-- The names of the regions that every program gets. -/
def systemNames : List String := ["EXEC", "Custom"]

/-- Hosts that stay in such a relation also under new regions of whole long words without content.
Looking for a region of the system never fails on them. -/
structure Grown (D : AccessError → AccessError → Prop) (R : Host → Host → Prop) : Prop
    extends Seen D R where
  getBlock : ∀ name ∈ systemNames, (getBlock name).InStep R fun _ ↦ False
  create : ∀ (plan : Region.Plan) (n : Nat), plan.data = none →
    plan.size = some ((n : Int) * SlotStore.slotSize) → (createBlock plan).Abreast R fun _ _ ↦ True

/-- Hosts that stay in a relation when both change their memory in one way, and on which one finds the
same regions of some names. -/
structure Supple (known : String → Prop) (R : Host → Host → Prop) : Prop where
  getBlock : ∀ name, known name → (getBlock name).Abreast R fun _ _ ↦ True
  createBlock : ∀ plan, (createBlock plan).Abreast R fun _ _ ↦ True
  setBytes : ∀ address bytes, (setBytes address bytes).Relates R
  convert : ∀ region fill, (convert region fill).Abreast R fun _ _ ↦ True
  join : ∀ first second, (join first second).Abreast R fun _ _ ↦ True

/-- Twins that stay so when both get the same memory. -/
structure Pliant (R : Host → Host → Prop) : Prop extends Twins R where
  withMemory : ∀ s t memory, R s t → R (s.withMemory memory) (t.withMemory memory)

/-- Twins that stay so under notes and under new regions of whole long words without content. Looking
for a region never fails on them. -/
structure Growing (R : Host → Host → Prop) : Prop extends Noting R where
  getBlock : ∀ name, (getBlock name).InStep R fun _ ↦ False
  create : ∀ (plan : Region.Plan) (n : Nat), plan.data = none →
    plan.size = some ((n : Int) * SlotStore.slotSize) → (createBlock plan).InStep R fun _ ↦ True

/-- Twins that stay so whatever both are to do. -/
structure Lockstep (R : Host → Host → Prop) : Prop extends Pliant R, Noting R where
  getBlock : ∀ name, (getBlock name).InStep R fun _ ↦ False

theorem ask_inStep (hR : Twins R) (ho : operation ∈ Operation.onMemory)
    (f : Memory → Except AccessError α) :
    (ask operation fun program ↦ f program.memory).InStep R fun _ ↦ True := by
  refine .bind (hR.enter operation ho) fun _ ↦ .get_bind (fun s t h ↦ ?_) fun _ ↦ ?_
  · dsimp only
    rw [hR.memory s t h]
  · exact .ofExcept fun _ _ ↦ trivial

theorem Noting.seen (hR : Noting R) : Seen (Shared fun _ ↦ True) R where
  sizes s t h := by rw [hR.memory s t h]
  readBytes address size := Action.inStep_iff.mp
    (ask_inStep hR.toTwins (by decide) fun memory ↦ memory.read address size)
  contains address := Action.inStep_iff.mp
    (ask_inStep hR.toTwins (by decide) fun memory ↦ .ok (memory.contains address))
  find start pattern := Action.inStep_iff.mp
    (ask_inStep hR.toTwins (by decide) fun memory ↦ .ok (memory.find? start pattern))
  createLabel := hR.createLabel
  declareFunction := hR.declareFunction
  addEntryPoint := hR.addEntryPoint
  createData := hR.createData
  addReference := hR.addReference

theorem changeMemory_inStep (hR : Pliant R) (ho : operation ∈ Operation.onMemory)
    (f : Memory → Except AccessError (α × Memory)) :
    (changeMemory operation f).InStep R fun _ ↦ True :=
  .bind (ask_inStep hR.toTwins ho f) fun ⟨_, memory⟩ ↦
    .bind (.modify fun s t h ↦ hR.withMemory s t memory h) fun _ ↦ .pure _

theorem createBlock_inStep (hR : Pliant R) (plan : Region.Plan) :
    (createBlock plan).InStep R fun _ ↦ True :=
  .bind (changeMemory_inStep hR (by decide) _) fun _ ↦ .bind (.report _ _) fun _ ↦ .pure _

theorem Pliant.supple (hR : Pliant R) : Supple (fun _ ↦ True) R where
  getBlock name _ := (ask_inStep hR.toTwins (by decide) fun memory ↦ .ok (memory.named? name)).abreast
  createBlock plan := (createBlock_inStep hR plan).abreast
  setBytes _ _ := (changeMemory_inStep hR (by decide) _).relates
  convert _ _ := (changeMemory_inStep hR (by decide) _).abreast
  join _ _ := (changeMemory_inStep hR (by decide) _).abreast

theorem Growing.grown (hR : Growing R) : Grown (Shared fun _ ↦ True) R where
  toSeen := hR.seen
  getBlock name _ := hR.getBlock name
  create plan n hdata hsize := (hR.create plan n hdata hsize).abreast

theorem Lockstep.growing (hR : Lockstep R) : Growing R where
  toNoting := hR.toNoting
  getBlock := hR.getBlock
  create plan _ _ _ := createBlock_inStep hR.toPliant plan

/-- One host, taken twice. -/
def Same (P : Host → Prop) (s t : Host) : Prop :=
  s = t ∧ P s

theorem same_relates {x : Access α} (hx : x.Preserves P) : x.Relates (Same P) := by
  rintro s _ ⟨rfl, h⟩
  exact ⟨rfl, hx s h⟩

theorem Lasting.noting (hP : Lasting P) : Noting (Same P) where
  memory _ _ h := by rw [h.1]
  enter operation _ := by
    rintro s _ ⟨rfl, h⟩
    exact .of_result_eq rfl ⟨rfl, hP.enter operation s h⟩ fun _ _ ↦ trivial
  createLabel _ _ _ := same_relates (createLabel_preserves hP _ _ _)
  declareFunction _ _ _ := same_relates (declareFunction_preserves hP.frame (createLabel_preserves hP _ _ _) _)
  addEntryPoint _ := same_relates (addEntryPoint_preserves hP.frame _)
  createData _ _ := same_relates (createData_preserves hP.frame _ _)
  addReference _ _ := same_relates (addReference_preserves hP.frame _ _)

theorem Stable.growing (hP : Stable P) : Growing (Same P) where
  toNoting := hP.lasting.noting
  getBlock name := by
    rintro s _ ⟨rfl, h⟩
    rw [getBlock, run_ask (hP.reliable s h)]
    exact .ok rfl ⟨rfl, h⟩
  create plan n hdata hsize := by
    rintro s _ ⟨rfl, h⟩
    exact .of_result_eq rfl ⟨rfl, createBlock_preserves hP hdata hsize s h⟩ fun _ _ ↦ trivial

/-- A property that calls, labels and notes do not take away, nor any change of the memory. -/
theorem Lasting.lockstep (hP : Lasting P) (hm : ∀ host memory, P host → P (host.withMemory memory))
    (hs : ∀ host, P host → host.Spares (· = .getBlock)) : Lockstep (Same P) where
  toNoting := hP.noting
  withMemory := by
    rintro s _ memory ⟨rfl, h⟩
    exact ⟨rfl, hm s memory h⟩
  getBlock name := by
    rintro s _ ⟨rfl, h⟩
    rw [getBlock, (hs s h).run_ask rfl]
    exact .ok rfl ⟨rfl, h⟩

theorem Stable.lockstep (hP : Stable P) (hm : ∀ host memory, P host → P (host.withMemory memory)) :
    Lockstep (Same P) :=
  hP.lasting.lockstep hm fun host h ↦ (hP.reliable host h).spares

end Host

end Hunks
