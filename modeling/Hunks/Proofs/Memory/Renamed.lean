import Mathlib
import Hunks.Memory
import Hunks.Proofs.Parallel

namespace Hunks

open Hunks.Action (Kindred)

theorem find?_of_forall₂ {α β : Type} {R : α → β → Prop} {p : α → Bool} {q : β → Bool} {as : List α}
    {bs : List β} (h : List.Forall₂ R as bs) (hp : ∀ a b, R a b → p a = q b) :
    Option.Rel R (as.find? p) (bs.find? q) := by
  induction h with
  | nil => exact .none
  | cons hab _ ih =>
    rw [List.find?_cons, List.find?_cons, hp _ _ hab]
    split
    · exact .some hab
    · exact ih

namespace Region

/-- Two names for what starts at an address: one name twice, or, where a region is owned, two names
that nobody knows. -/
def Named (known : String → Prop) (own : Int → Prop) (start : Int) (name name' : String) : Prop :=
  name = name' ∨ own start ∧ ¬ known name ∧ ¬ known name'

/-- A region under two such names. -/
def Renamed (known : String → Prop) (own : Int → Prop) (region region' : Region) : Prop :=
  ∃ name, region' = { region with name } ∧ Named known own region.start region.name name

variable {known : String → Prop} {own : Int → Prop} {region region' : Region}

theorem Renamed.refl (region : Region) : region.Renamed known own region :=
  ⟨region.name, rfl, Or.inl rfl⟩

theorem Renamed.start_eq (h : region.Renamed known own region') : region'.start = region.start := by
  obtain ⟨name, rfl, -⟩ := h
  rfl

theorem Renamed.stop_eq (h : region.Renamed known own region') : region'.stop = region.stop := by
  obtain ⟨name, rfl, -⟩ := h
  rfl

theorem Renamed.data_eq (h : region.Renamed known own region') : region'.data = region.data := by
  obtain ⟨name, rfl, -⟩ := h
  rfl

/-- A known name is the name of both or of neither. -/
theorem Renamed.name_eq_iff (h : region.Renamed known own region') {name : String} (hk : known name) :
    region.name = name ↔ region'.name = name := by
  obtain ⟨name', rfl, rfl | ⟨-, hfirst, hsecond⟩⟩ := h
  · rfl
  · constructor
    · rintro rfl
      exact absurd hk hfirst
    · rintro rfl
      exact absurd hk hsecond

theorem Renamed.eq_of_known (h : region.Renamed known own region') (hk : known region.name) :
    region' = region := by
  obtain ⟨name, rfl, rfl | ⟨-, hfirst, -⟩⟩ := h
  · rfl
  · exact absurd hk hfirst

end Region

namespace Memory

/-- Regions that are alike but for the names of owned ones. -/
def Renamed (known : String → Prop) (own : Int → Prop) (memory memory' : Memory) : Prop :=
  List.Forall₂ (Region.Renamed known own) memory memory'

variable {known : String → Prop} {own : Int → Prop} {memory memory' : Memory} {region region' : Region}

theorem Renamed.refl (memory : Memory) : memory.Renamed known own memory :=
  List.forall₂_same.mpr fun region _ ↦ .refl region

namespace Renamed

variable (h : memory.Renamed known own memory')
include h

theorem mono {own' : Int → Prop} (ho : ∀ start, own start → own' start) :
    memory.Renamed known own' memory' := by
  refine h.imp fun region region' hr ↦ ?_
  obtain ⟨name, rfl, hn⟩ := hr
  exact ⟨name, rfl, hn.imp_right fun hn ↦ hn.imp_left (ho _)⟩

theorem sizes_eq : memory.map Region.size = memory'.map Region.size := by
  induction h with
  | nil => rfl
  | cons hr _ ih =>
    obtain ⟨name, rfl, -⟩ := hr
    rw [List.map_cons, List.map_cons, ih]

theorem contains_eq (address : Int) : memory.contains address = memory'.contains address := by
  induction h with
  | nil => rfl
  | cons hr _ ih =>
    obtain ⟨name, rfl, -⟩ := hr
    simp only [contains, List.any_cons] at ih ⊢
    rw [ih]
    rfl

theorem named?_eq {name : String} (hk : known name) : memory.named? name = memory'.named? name := by
  have hfind : Option.Rel (Region.Renamed known own) (memory.named? name) (memory'.named? name) :=
    find?_of_forall₂ h fun _ _ hr ↦ decide_eq_decide.mpr (hr.name_eq_iff hk)
  have hname : ∀ region, memory.named? name = some region → region.name = name :=
    fun _ hm ↦ of_decide_eq_true (List.find?_some (p := fun region : Region ↦ region.name = name) hm)
  generalize memory.named? name = found at hfind hname ⊢
  generalize memory'.named? name = found' at hfind ⊢
  cases hfind with
  | none => rfl
  | some hr => rw [hr.eq_of_known (hname _ rfl ▸ hk)]

theorem find?_eq (start : Int) (pattern : List UInt8) :
    memory.find? start pattern = memory'.find? start pattern := by
  induction h with
  | nil => rfl
  | cons hr _ ih =>
    obtain ⟨name, rfl, -⟩ := hr
    rw [find?, find?, ih]
    rfl

theorem accessible (address size : Int) :
    Kindred (fun _ _ ↦ True) (fun found found' ↦ found.1.Renamed known own found'.1 ∧ found.2 = found'.2)
      (memory.accessible address size) (memory'.accessible address size) := by
  have hfind : Option.Rel (Region.Renamed known own)
      (List.find? (fun region ↦ region.contains address) memory)
      (List.find? (fun region ↦ region.contains address) memory') := by
    refine find?_of_forall₂ h fun _ _ hr ↦ ?_
    rw [Region.contains, Region.contains, hr.start_eq, hr.stop_eq]
  rw [Memory.accessible, Memory.accessible]
  generalize List.find? _ memory = found at hfind ⊢
  generalize List.find? _ memory' = found' at hfind ⊢
  cases hfind with
  | none => exact .error trivial
  | some hr =>
    dsimp only
    rw [hr.stop_eq, hr.data_eq]
    split
    · exact .error trivial
    · split
      · exact .error trivial
      · exact .ok ⟨hr, rfl⟩

theorem read (address size : Int) :
    Kindred (fun _ _ ↦ True) Eq (memory.read address size) (memory'.read address size) := by
  refine (h.accessible address size).bind fun found found' hfound ↦ .ok ?_
  rw [hfound.1.start_eq, hfound.2]

theorem update (hr : region.Renamed known own region') :
    (memory.update region).Renamed known own (memory'.update region') := by
  refine List.rel_map (fun other other' ho ↦ ?_) h
  rw [ho.start_eq, hr.start_eq]
  split
  · exact hr
  · exact ho

theorem insert (hr : region.Renamed known own region') :
    (memory.insert region).Renamed known own (memory'.insert region') := by
  induction h with
  | nil => exact .cons hr .nil
  | cons ho hrest ih =>
    rw [Memory.insert, Memory.insert, ho.start_eq, hr.start_eq]
    split
    · exact .cons hr (.cons ho hrest)
    · exact .cons ho ih

theorem write (address : Int) (bytes : Bytes) :
    Kindred (fun _ _ ↦ True) (Renamed known own) (memory.write address bytes)
      (memory'.write address bytes) := by
  refine (h.accessible address bytes.size).bind ?_
  rintro ⟨region, data⟩ ⟨_, _⟩ ⟨⟨name, rfl, hn⟩, rfl⟩
  exact .ok (h.update ⟨name, rfl, hn⟩)

/-- A region is created under either name, or under none. -/
theorem create {plan : Region.Plan} {name : String}
    (hn : Region.Named known own plan.address plan.name name) :
    Kindred (fun _ _ ↦ True)
      (fun made made' ↦ (made.1.name = plan.name ∧ made'.1 = { made.1 with name }) ∧
        made.2.Renamed known own made'.2)
      (memory.create plan) (memory'.create { plan with name }) := by
  have hover : ∀ size, Option.Rel (Region.Renamed known own) (memory.overlapping? plan.address size)
      (memory'.overlapping? plan.address size) := by
    refine fun size ↦ find?_of_forall₂ h fun _ _ hr ↦ ?_
    rw [hr.start_eq, hr.stop_eq]
  have hsize : plannedSize { plan with name } = plannedSize plan := rfl
  rw [Memory.create, Memory.create, hsize]
  cases plannedSize plan with
  | error e => exact .error trivial
  | ok size =>
    have hover := hover size
    dsimp only [Bind.bind, Except.bind]
    generalize memory.overlapping? plan.address size = other at hover ⊢
    generalize memory'.overlapping? plan.address size = other' at hover ⊢
    split
    · exact .error trivial
    · cases hover with
      | some _ => exact .error trivial
      | none =>
        have hr : Region.Renamed known own
            ⟨plan.name, plan.address, size, plannedData plan size, plan.read, plan.write, plan.execute⟩
            ⟨name, plan.address, size, plannedData plan size, plan.read, plan.write, plan.execute⟩ :=
          ⟨name, rfl, hn⟩
        exact .ok ⟨⟨rfl, rfl⟩, h.insert hr⟩

theorem join (first second : Region) :
    Kindred (fun _ _ ↦ True) (fun made made' ↦ made.1 = made'.1 ∧ made.2.Renamed known own made'.2)
      (memory.join first second) (memory'.join first second) := by
  rw [Memory.join, Memory.join]
  split
  · exact .error trivial
  · split
    · exact .error trivial
    · have hfilter : Memory.Renamed known own (memory.filter fun other ↦ other.start ≠ second.start)
          (memory'.filter fun other ↦ other.start ≠ second.start) := by
        refine List.rel_filter (fun other other' ho ↦ ?_) h
        dsimp only
        rw [ho.start_eq]
      exact .ok ⟨rfl, hfilter.update (.refl _)⟩

theorem convert (region : Region) (fill : Int) :
    Kindred (fun _ _ ↦ True) (fun made made' ↦ made.1 = made'.1 ∧ made.2.Renamed known own made'.2)
      (memory.convert region fill) (memory'.convert region fill) := by
  rw [Memory.convert, Memory.convert]
  split
  · exact .ok ⟨rfl, h⟩
  · split
    · exact .ok ⟨rfl, h.update (.refl _)⟩
    · exact .error trivial

end Renamed

end Memory

end Hunks
