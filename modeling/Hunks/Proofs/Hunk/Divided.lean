import Mathlib
import Hunks.Proofs.Hunk.Gathered

namespace Hunks

open Hunks.Action (run)

namespace Kind

def isSegment : Kind → Bool
  | segment _ => true
  | _ => false

/-- Kinds that say something about the hunk they are in. -/
def isContent : Kind → Bool
  | symbols | externals | debug | relocs _ => true
  | _ => false

variable {kind : Kind}

/-- A kind that says nothing about a hunk starts one, ends one, names one or is in none. -/
theorem isContent_iff : kind.isContent ↔
    ¬ kind.isSegment ∧ kind ≠ .ending ∧ kind ≠ .name ∧ ¬ kind.isPassive := by
  cases kind <;> simp [isContent, isSegment, isPassive]

theorem not_isPassive_of_isSegment (h : kind.isSegment) : ¬ kind.isPassive := by
  cases kind <;> simp_all [isSegment, isPassive]

theorem isSegment_iff : kind.isSegment ↔ ∃ segmentKind, kind = .segment segmentKind := by
  cases kind <;> simp [isSegment]

end Kind

namespace Hunk

variable {blocks front behind rest : List Block} {block : Block}

/-- The blocks behind the last segment block. -/
def since (front : List Block) : List Block :=
  front.rtakeWhile fun block ↦ !block.kind.isSegment

/-- A hunk is open behind a segment block without an end mark since. -/
def IsOpen (front : List Block) : Prop :=
  (∃ block ∈ front, block.kind.isSegment) ∧ ∀ block ∈ since front, block.kind ≠ .ending

instance : DecidablePred IsOpen := fun _ ↦ inferInstanceAs (Decidable (_ ∧ _))

/-- The blocks behind the last hunk, from its end mark on. -/
def gap (front : List Block) : List Block :=
  if ∃ block ∈ front, block.kind.isSegment then (since front).dropWhile (·.kind ≠ .ending)
  else since front

/-- The names that stand outside of hunks and belong to the next one. -/
def waiting (front : List Block) : List Block :=
  (gap front).filter (·.kind = .name)

/-- The blocks behind a segment block up to an end mark or the next one. -/
def own (behind : List Block) : List Block :=
  behind.takeWhile fun block ↦ !block.kind.isSegment && block.kind ≠ .ending

theorem since_concat : since (front ++ [block]) =
    if block.kind.isSegment then [] else since front ++ [block] := by
  rw [since, since, List.rtakeWhile_concat]
  cases block.kind.isSegment <;> rfl

theorem isOpen_concat : IsOpen (front ++ [block]) ↔
    block.kind.isSegment ∨ IsOpen front ∧ block.kind ≠ .ending := by
  rw [IsOpen, IsOpen, since_concat]
  by_cases hs : block.kind.isSegment
  · rw [if_pos hs]
    exact iff_of_true ⟨⟨block, by simp, hs⟩, by simp⟩ (Or.inl hs)
  · simp [hs, or_imp, forall_and, and_assoc]

theorem gap_eq_nil (h : IsOpen front) : gap front = [] := by
  rw [gap, if_pos h.1]
  exact List.dropWhile_eq_nil_iff.mpr fun block hm ↦ decide_eq_true (h.2 block hm)

theorem gap_concat (h : ¬ IsOpen (front ++ [block])) : gap (front ++ [block]) = gap front ++ [block] := by
  obtain ⟨hs, hend⟩ := not_or.mp (isOpen_concat.not.mp h)
  have hany : (∃ b ∈ front ++ [block], b.kind.isSegment) ↔ ∃ b ∈ front, b.kind.isSegment := by
    simp [hs]
  rw [gap, gap, since_concat, if_neg hs, if_congr hany rfl rfl]
  by_cases hseg : ∃ b ∈ front, b.kind.isSegment
  · rw [if_pos hseg, if_pos hseg, List.dropWhile_append]
    split <;> rename_i hdrop
    · have hopen : IsOpen front := ⟨hseg, by simpa using hdrop⟩
      have hending : block.kind = .ending := not_not.mp fun hne ↦ hend ⟨hopen, hne⟩
      rw [List.isEmpty_iff.mp hdrop]
      simp [hending]
    · rfl
  · rw [if_neg hseg, if_neg hseg]

theorem waiting_eq_nil (h : IsOpen front) : waiting front = [] := by
  rw [waiting, gap_eq_nil h, List.filter_nil]

theorem waiting_concat : waiting (front ++ [block]) =
    if block.kind.isSegment then []
    else if block.kind = .name ∧ ¬ IsOpen front then waiting front ++ [block] else waiting front := by
  by_cases hopen : IsOpen (front ++ [block])
  · rw [waiting_eq_nil hopen]
    rcases isOpen_concat.mp hopen with hs | ⟨hfront, -⟩
    · rw [if_pos hs]
    · simp [hfront, waiting_eq_nil hfront]
  · obtain ⟨hs, hend⟩ := not_or.mp (isOpen_concat.not.mp hopen)
    rw [waiting, gap_concat hopen, List.filter_append, if_neg hs, waiting]
    by_cases hname : block.kind = .name
    · have hclosed : ¬ IsOpen front := fun h ↦ hend ⟨h, by simp [hname]⟩
      simp [hname, hclosed]
    · simp [hname]

theorem own_of_boundary (h : block.kind.isSegment ∨ block.kind = .ending) : own (block :: rest) = [] := by
  rw [own, List.takeWhile_cons, if_neg]
  rcases h with h | h <;> simp [h]

theorem own_cons (hs : ¬ block.kind.isSegment) (he : block.kind ≠ .ending) :
    own (block :: rest) = block :: own rest := by
  rw [own, List.takeWhile_cons, if_pos (by simp [hs, he]), own]

/-- The blocks of the hunks that start behind some blocks. -/
def partsFrom (front : List Block) : List Block → List (List Block)
  | [] => []
  | block :: rest =>
    if block.kind.isSegment then
      (waiting front ++ block :: own rest) :: partsFrom (front ++ [block]) rest
    else
      partsFrom (front ++ [block]) rest

/-- The blocks of each hunk, names from in front of it among them. -/
def parts (blocks : List Block) : List (List Block) :=
  partsFrom [] blocks

def Allowed (front : List Block) (block : Block) : Prop :=
  (block.kind.isContent → IsOpen front) ∧ (block.kind.isPassive → ¬ IsOpen front)

/-- How far a division has come behind some blocks. -/
structure Division.Describes (division : Division) (done : List Block) : Prop where
  isOpen : division.current.isSome ↔ IsOpen done
  pending : division.pending.reverse = waiting done
  -- for any blocks to come, as the open hunk takes some of them
  parts : ∀ rest, division.closed.reverse ++
    division.current.toList.map (fun blocks ↦ blocks.reverse ++ own rest) ++ partsFrom done rest =
      partsFrom [] (done ++ rest)
  allowed : ∀ front block behind, done = front ++ block :: behind → Allowed front block

theorem split_concat_iff {done : List Block} {b : Block} : done ++ [block] = front ++ b :: behind ↔
    (done = front ∧ block = b ∧ behind = []) ∨
      ∃ behind', behind = behind' ++ [block] ∧ done = front ++ b :: behind' := by
  rcases List.eq_nil_or_concat' behind with rfl | ⟨behind, last, rfl⟩
  · constructor
    · intro h
      obtain ⟨hdone, hb⟩ := List.append_inj' h rfl
      exact Or.inl ⟨hdone, (List.cons.inj hb).1, rfl⟩
    · rintro (⟨rfl, rfl, -⟩ | ⟨behind', h, -⟩)
      · rfl
      · simp at h
  · constructor
    · intro h
      have h' : done ++ [block] = (front ++ b :: behind) ++ [last] := by simpa using h
      obtain ⟨hdone, hb⟩ := List.append_inj' h' rfl
      cases hb
      exact Or.inr ⟨behind, rfl, hdone⟩
    · rintro (⟨-, -, h⟩ | ⟨behind', h, rfl⟩)
      · simp at h
      · rw [h]
        simp

theorem allowed_concat {done : List Block} (hlast : Allowed done block)
    (h : ∀ front b behind, done = front ++ b :: behind → Allowed front b) :
    ∀ front b behind, done ++ [block] = front ++ b :: behind → Allowed front b := by
  intro front b behind hsplit
  obtain ⟨rfl, rfl, -⟩ | ⟨behind', -, hdone⟩ := split_concat_iff.mp hsplit
  · exact hlast
  · exact h front b behind' hdone

theorem Division.describes_nil : Division.Describes ⟨[], none, []⟩ [] where
  isOpen := by simp [IsOpen]
  pending := by simp [waiting, gap, since]
  parts _ := rfl
  allowed front block behind h := by simp at h

section Step

variable {division : Division} {done : List Block}

/-- An end mark or a segment block closes the open hunk. -/
theorem Division.Describes.close (h : division.Describes done)
    (hb : block.kind.isSegment ∨ block.kind = .ending) (rest : List Block) :
    division.close.closed.reverse ++ partsFrom done (block :: rest) =
      partsFrom [] (done ++ block :: rest) := by
  rw [← h.parts, own_of_boundary hb]
  rcases division with ⟨closed, _ | blocks, pending⟩ <;> simp [Division.close]

theorem Division.pending_close (division : Division) : division.close.pending = division.pending := by
  rcases division with ⟨closed, _ | blocks, pending⟩ <;> rfl

theorem Division.current_close (division : Division) : division.close.current = none := by
  rcases division with ⟨closed, _ | blocks, pending⟩ <;> rfl

theorem Division.Describes.ending (h : division.Describes done) (hk : block.kind = .ending) :
    division.close.Describes (done ++ [block]) where
  isOpen := by simp [isOpen_concat, Division.current_close, hk, Kind.isSegment]
  pending := by
    rw [Division.pending_close, h.pending, waiting_concat]
    simp [hk, Kind.isSegment]
  parts rest := by
    have hclose := h.close (Or.inr hk) rest
    rw [partsFrom, if_neg (by simp [hk, Kind.isSegment])] at hclose
    simpa [Division.current_close] using hclose
  allowed := allowed_concat ⟨by simp [hk, Kind.isContent], by simp [hk, Kind.isPassive]⟩ h.allowed

theorem Division.Describes.segment (h : division.Describes done) (hs : block.kind.isSegment) :
    Division.Describes { division.close with current := some (block :: division.pending), pending := [] }
      (done ++ [block]) where
  isOpen := by simp [isOpen_concat, hs]
  pending := by simp [waiting_concat, hs]
  parts rest := by
    have hclose := h.close (Or.inl hs) rest
    rw [partsFrom, if_pos hs] at hclose
    simpa [h.pending] using hclose
  allowed := allowed_concat ⟨fun hc ↦ absurd hs (Kind.isContent_iff.mp hc).1,
    fun hp ↦ absurd hp (Kind.not_isPassive_of_isSegment hs)⟩ h.allowed

theorem Division.Describes.inside {current : List Block} (h : division.Describes done)
    (hcurrent : division.current = some current) (hs : ¬ block.kind.isSegment) (he : block.kind ≠ .ending)
    (hp : ¬ block.kind.isPassive) :
    Division.Describes { division with current := some (block :: current) } (done ++ [block]) where
  isOpen := by simp [isOpen_concat, he, ← h.isOpen, hcurrent]
  pending := by
    have hopen : IsOpen done := h.isOpen.mp (by simp [hcurrent])
    simp [waiting_concat, hs, hopen, h.pending]
  parts rest := by
    have hparts := h.parts (block :: rest)
    rw [own_cons hs he, partsFrom, if_neg hs] at hparts
    simpa [hcurrent] using hparts
  allowed := allowed_concat ⟨fun _ ↦ h.isOpen.mp (by simp [hcurrent]), fun h ↦ absurd h hp⟩ h.allowed

theorem Division.Describes.outside (h : division.Describes done) (pending : List Block)
    (hcurrent : division.current = none) (hs : ¬ block.kind.isSegment)
    (hpending : pending.reverse = waiting (done ++ [block])) (hc : ¬ block.kind.isContent) :
    Division.Describes { division with pending } (done ++ [block]) where
  isOpen := by simp [isOpen_concat, hs, ← h.isOpen, hcurrent]
  pending := hpending
  parts rest := by
    have hparts := h.parts (block :: rest)
    rw [partsFrom, if_neg hs] at hparts
    simpa [hcurrent] using hparts
  allowed := by
    refine allowed_concat ⟨fun h ↦ absurd h hc, fun _ hopen ↦ ?_⟩ h.allowed
    simpa [hcurrent] using h.isOpen.mpr hopen

theorem Division.Describes.add (h : division.Describes done) (block : Block) :
    (Allowed done block ∧ ∃ division', Division.add block division = .ok division' ∧
      division'.Describes (done ++ [block])) ∨
    ¬ Allowed done block ∧ ∃ e, Division.add block division = .error e := by
  rw [Division.add]
  dsimp only
  -- a branch that returns is described by what it returns, which tells too that the block was allowed
  split
  · rename_i hk
    have hnext := h.ending hk
    exact Or.inl ⟨hnext.allowed done block [] rfl, _, rfl, hnext⟩
  · rename_i kind hk
    have hnext := h.segment (Kind.isSegment_iff.mpr ⟨kind, hk⟩)
    exact Or.inl ⟨hnext.allowed done block [] rfl, _, rfl, hnext⟩
  · rename_i current hcurrent he hs
    have hs' : ¬ block.kind.isSegment := fun h ↦ (Kind.isSegment_iff.mp h).elim hs
    split <;> rename_i hp
    · have hopen : IsOpen done := h.isOpen.mp (by simp [hcurrent])
      exact Or.inr ⟨fun ha ↦ ha.2 hp hopen, _, rfl⟩
    · have hnext := h.inside hcurrent hs' he hp
      exact Or.inl ⟨hnext.allowed done block [] rfl, _, rfl, hnext⟩
  · rename_i hcurrent hk
    have hclosed : ¬ IsOpen done := by simp [← h.isOpen, hcurrent]
    have hs : ¬ block.kind.isSegment := by simp [hk, Kind.isSegment]
    have hnext := h.outside (block :: division.pending) hcurrent hs
      (by simp [waiting_concat, hk, Kind.isSegment, hclosed, h.pending]) (by simp [hk, Kind.isContent])
    exact Or.inl ⟨hnext.allowed done block [] rfl, _, rfl, hnext⟩
  · rename_i hcurrent he hs hname
    have hs' : ¬ block.kind.isSegment := fun h ↦ (Kind.isSegment_iff.mp h).elim hs
    split <;> rename_i hp
    · have hnext := h.outside division.pending hcurrent hs'
        (by rw [waiting_concat, if_neg hs', if_neg fun hn ↦ hname hn.1, h.pending])
        fun hc ↦ (Kind.isContent_iff.mp hc).2.2.2 hp
      exact Or.inl ⟨hnext.allowed done block [] rfl, _, rfl, hnext⟩
    · have hclosed : ¬ IsOpen done := by simp [← h.isOpen, hcurrent]
      have hc : block.kind.isContent := Kind.isContent_iff.mpr ⟨hs', he, hname, hp⟩
      exact Or.inr ⟨fun ha ↦ hclosed (ha.1 hc), _, rfl⟩

end Step

/-- A name waits if it stands outside of hunks and no hunk starts behind it. -/
theorem mem_waiting {b : Block} : b ∈ waiting blocks ↔ ∃ front behind, blocks = front ++ b :: behind ∧
    b.kind = .name ∧ ¬ IsOpen front ∧ ∀ other ∈ behind, ¬ other.kind.isSegment := by
  -- from the right, as a name waits until a segment block comes behind it
  induction blocks using List.reverseRecOn with
  | nil => simp [waiting, gap, since]
  | append_singleton done block ih =>
    simp only [split_concat_iff]
    rw [waiting_concat]
    by_cases hs : block.kind.isSegment
    · rw [if_pos hs]
      refine iff_of_false List.not_mem_nil ?_
      rintro ⟨front, behind, ⟨-, rfl, -⟩ | ⟨behind', rfl, -⟩, hname, -, hbehind⟩
      · simp [hname, Kind.isSegment] at hs
      · exact hbehind block (by simp) hs
    · have hstep : b ∈ (if block.kind = .name ∧ ¬ IsOpen done then waiting done ++ [block] else waiting done) ↔
          b ∈ waiting done ∨ b = block ∧ block.kind = .name ∧ ¬ IsOpen done := by
        split <;> simp_all
      rw [if_neg hs, hstep, ih]
      constructor
      · rintro (⟨front, behind, rfl, hname, hclosed, hbehind⟩ | ⟨rfl, hname, hclosed⟩)
        · exact ⟨front, behind ++ [block], Or.inr ⟨behind, rfl, rfl⟩, hname, hclosed,
            List.forall_mem_append.mpr ⟨hbehind, by simpa using hs⟩⟩
        · exact ⟨done, [], Or.inl ⟨rfl, rfl, rfl⟩, hname, hclosed, by simp⟩
      · rintro ⟨front, behind, ⟨rfl, rfl, -⟩ | ⟨behind', rfl, rfl⟩, hname, hclosed, hbehind⟩
        · exact Or.inr ⟨rfl, hname, hclosed⟩
        · exact Or.inl ⟨front, behind', rfl, hname, hclosed, (List.forall_mem_append.mp hbehind).1⟩

/-- A list of blocks that can be divided into hunks: what says something about a hunk is in one, what never
is in a hunk stands outside, and a name outside has a hunk to come. -/
structure Divisible (blocks : List Block) : Prop where
  content : ∀ front block behind, blocks = front ++ block :: behind → block.kind.isContent → IsOpen front
  passive : ∀ front block behind, blocks = front ++ block :: behind → block.kind.isPassive → ¬ IsOpen front
  names : ∀ front block behind, blocks = front ++ block :: behind → block.kind = .name → ¬ IsOpen front →
    ∃ segment ∈ behind, segment.kind.isSegment

theorem waiting_eq_nil_iff : waiting blocks = [] ↔ ∀ front block behind, blocks = front ++ block :: behind →
    block.kind = .name → ¬ IsOpen front → ∃ segment ∈ behind, segment.kind.isSegment := by
  rw [List.eq_nil_iff_forall_not_mem]
  simp only [mem_waiting]
  constructor
  · intro h front block behind hsplit hname hclosed
    by_contra hnone
    exact h block ⟨front, behind, hsplit, hname, hclosed, by simpa using hnone⟩
  · rintro h block ⟨front, behind, hsplit, hname, hclosed, hbehind⟩
    obtain ⟨segment, hm, hs⟩ := h front block behind hsplit hname hclosed
    exact hbehind segment hm hs

namespace Division

variable {division : Division} {done : List Block}

def step (division : Division) (block : Block) : Action Unit ParseError Division := do
  Action.tell (note block division)
  Action.ofExcept (add block division)

theorem run_step (division : Division) (block : Block) :
    run (step division block) () = (add block division, ()) :=
  (Action.run_bind_ok rfl).trans (Action.run_ofExcept _ _)

theorem describes_of_run (hrun : run (Action.foldl step ⟨[], none, []⟩ done) () = (.ok division, ())) :
    division.Describes done := by
  refine Action.foldl_invariant (fun done division (_ : Unit) ↦ division.Describes done) ?_
    describes_nil hrun
  intro done block rest division _ division' _ _ h hrun
  rw [run_step] at hrun
  obtain ⟨-, next, hadd, hnext⟩ | ⟨-, e, hadd⟩ := h.add block
  · rw [hadd] at hrun
    cases hrun
    exact hnext
  · rw [hadd] at hrun
    cases hrun

theorem Describes.closed_close (h : division.Describes blocks) :
    division.close.closed.reverse = Hunk.parts blocks := by
  have hparts := h.parts []
  rw [List.append_nil, partsFrom, List.append_nil] at hparts
  rw [Hunk.parts, ← hparts]
  rcases division with ⟨closed, _ | current, pending⟩ <;> simp [Division.close, own]

theorem Describes.divisible (h : division.Describes blocks) (hpending : division.pending = []) :
    Divisible blocks where
  content front block behind hsplit := (h.allowed front block behind hsplit).1
  passive front block behind hsplit := (h.allowed front block behind hsplit).2
  names := by
    rw [← waiting_eq_nil_iff, ← h.pending, hpending, List.reverse_nil]

theorem Describes.pending_eq_nil (h : division.Describes blocks) (hd : Divisible blocks) :
    division.pending = [] := by
  rw [← List.reverse_eq_nil_iff, h.pending]
  exact waiting_eq_nil_iff.mpr hd.names

end Division

/-- A division that goes through tells the hunks; else it fails. -/
theorem divide_settled (blocks : List Block) :
    (Divisible blocks ∧ run (divide blocks) () = (.ok (parts blocks), ())) ∨
      ¬ Divisible blocks ∧ ∃ e, run (divide blocks) () = (.error e, ()) := by
  rcases hrun : run (Action.foldl Division.step ⟨[], none, []⟩ blocks) () with ⟨e | division, _⟩
  · refine Or.inr ⟨fun hd ↦ ?_, e, Action.run_bind_error hrun⟩
    obtain ⟨done, block, rest, division, _, hsplit, hdone, hlast⟩ := Action.of_run_foldl_eq_error hrun
    rw [Division.run_step] at hlast
    obtain ⟨-, _, hadd, -⟩ | ⟨hn, -⟩ := (Division.describes_of_run hdone).add block
    · rw [hadd] at hlast
      cases hlast
    · exact hn ⟨hd.content done block rest hsplit, hd.passive done block rest hsplit⟩
  · have h := Division.describes_of_run hrun
    have hrest : run (divide blocks) () = run (do
        if !division.pending.isEmpty then
          throw .lonelyName
        return division.close.closed.reverse) () := Action.run_bind_ok hrun
    by_cases hpending : division.pending = []
    · refine Or.inl ⟨h.divisible hpending, ?_⟩
      rw [hrest, if_neg (by simp [hpending]), h.closed_close]
      rfl
    · refine Or.inr ⟨fun hd ↦ hpending (h.pending_eq_nil hd), .lonelyName, ?_⟩
      rw [hrest, if_pos (by simpa using hpending)]
      rfl

theorem exists_split_of_mem {part : List Block} (h : part ∈ partsFrom front rest) : ∃ pre segment behind,
    rest = pre ++ segment :: behind ∧ segment.kind.isSegment ∧
      part = waiting (front ++ pre) ++ segment :: own behind := by
  induction rest generalizing front with
  | nil => cases h
  | cons block rest ih =>
    have hcases : block.kind.isSegment ∧ part = waiting front ++ block :: own rest ∨
        part ∈ partsFrom (front ++ [block]) rest := by
      rw [partsFrom] at h
      split at h <;> simp_all
    rcases hcases with ⟨hs, rfl⟩ | hm
    · exact ⟨[], block, rest, rfl, hs, by rw [List.append_nil]⟩
    · obtain ⟨pre, segment, behind, rfl, hs, rfl⟩ := ih hm
      exact ⟨block :: pre, segment, behind, rfl, hs, by rw [List.append_cons front block pre]⟩

theorem getElem?_partsFrom {pre : List Block} {segment : Block} (hs : segment.kind.isSegment) :
    (partsFrom front (pre ++ segment :: behind))[pre.countP (·.kind.isSegment)]? =
      some (waiting (front ++ pre) ++ segment :: own behind) := by
  induction pre generalizing front with
  | nil => simp [partsFrom, hs]
  | cons block pre ih =>
    rw [List.cons_append, partsFrom, List.countP_cons, List.append_cons front block pre]
    split <;> rename_i hb
    · exact ih
    · exact ih

theorem length_partsFrom : (partsFrom front rest).length = rest.countP (·.kind.isSegment) := by
  induction rest generalizing front with
  | nil => rfl
  | cons block rest ih =>
    rw [partsFrom, List.countP_cons]
    split <;> simp [ih]

/-- What is in hunks is there once and in order. -/
theorem flatMap_partsFrom {α : Type} {f : Block → Option α}
    (hf : ∀ block : Block, ¬ block.kind.isContent → f block = none) (front : List Block)
    (hcontent : ∀ pre block behind, rest = pre ++ block :: behind → block.kind.isContent →
      IsOpen (front ++ pre)) :
    (if IsOpen front then own rest else []).filterMap f ++ (partsFrom front rest).flatMap (·.filterMap f) =
      rest.filterMap f := by
  -- the hunk that is open behind `front` is none of the parts, so what it still takes comes first
  induction rest generalizing front with
  | nil => simp [partsFrom, own]
  | cons block rest ih =>
    have hrest := ih (front ++ [block]) fun pre b behind hsplit hb ↦ by
      rw [← List.append_cons]
      exact hcontent (block :: pre) b behind (by rw [hsplit, List.cons_append]) hb
    have hfirst := hcontent [] block rest rfl
    rw [List.append_nil] at hfirst
    by_cases hs : block.kind.isSegment
    · have hnone : f block = none := hf block fun hc ↦ (Kind.isContent_iff.mp hc).1 hs
      have hwaiting : (waiting front).filterMap f = [] := by
        refine List.filterMap_eq_nil_iff.mpr fun b hb ↦ hf b ?_
        obtain ⟨-, hname⟩ := List.mem_filter.mp hb
        simp [of_decide_eq_true hname, Kind.isContent]
      rw [if_pos (isOpen_concat.mpr (Or.inl hs))] at hrest
      rw [own_of_boundary (Or.inl hs), partsFrom, if_pos hs, List.flatMap_cons, List.filterMap_append, hwaiting]
      simpa [hnone] using hrest
    · by_cases he : block.kind = .ending
      · have hnone : f block = none := hf block (by simp [he, Kind.isContent])
        rw [if_neg (by simp [isOpen_concat, he, Kind.isSegment])] at hrest
        rw [own_of_boundary (Or.inr he), partsFrom, if_neg hs]
        simpa [hnone] using hrest
      · have hsame : IsOpen (front ++ [block]) ↔ IsOpen front := by simp [isOpen_concat, hs, he]
        rw [if_congr hsame rfl rfl] at hrest
        rw [own_cons hs he, partsFrom, if_neg hs, List.filterMap_cons, ← hrest]
        by_cases hopen : IsOpen front
        · rw [if_pos hopen, if_pos hopen, List.filterMap_cons]
          cases f block <;> rfl
        · rw [if_neg hopen, if_neg hopen, hf block fun hb ↦ hopen (hfirst hb)]

end Hunk

end Hunks
