import Mathlib
import Hunks.Proofs.Hunk

namespace Hunks

open Hunks.Action (run)

namespace Block

def segment? : Block → Option (SegmentKind × SegmentContent)
  | plain _ (.segment kind content) => some (kind, content)
  | _ => none

def name? : Block → Option String
  | plain _ (.name name) => some name
  | _ => none

def symbols? : Block → Option (List SymbolEntry)
  | plain _ (.symbols entries) => some entries
  | _ => none

def externals? : Block → Option (List External)
  | plain _ (.externals entries) => some entries
  | _ => none

def debug? : Block → Option Bytes
  | plain _ (.debug data) => some data
  | _ => none

def relocs? : Block → Option (RelocKind × List RelocGroup)
  | plain _ (.relocs kind groups) => some (kind, groups)
  | _ => none

end Block

namespace Hunk

variable {done part : List Block} {block : Block} {hunk hunk' : Hunk}

/-- The hunk that blocks make when each of them has found its place. -/
def gathered (blocks : List Block) : Hunk where
  segment := (blocks.filterMap Block.segment?).getLast?
  name := (blocks.filterMap Block.name?).getLastD ""
  symbols := (blocks.filterMap Block.symbols?).getLast?
  externals := (blocks.filterMap Block.externals?).getLast?
  relocs := blocks.filterMap Block.relocs?
  debug := blocks.filterMap Block.debug?
  sizeLongs := ((blocks.filterMap Block.segment?).getLast?.map (·.2.sizeLongs)).getD 0
  memFlags := ((blocks.filterMap Block.segment?).getLast?.map (·.2.memFlags)).getD 0
  memAttr := none

/-- Blocks that a hunk can have. A name can come after others only if these are empty. -/
structure Gatherable (blocks : List Block) : Prop where
  segments : (blocks.filterMap Block.segment?).length ≤ 1
  symbols : (blocks.filterMap Block.symbols?).length ≤ 1
  externals : (blocks.filterMap Block.externals?).length ≤ 1
  names : (blocks.filterMap Block.name?).Pairwise fun first _ ↦ first = ""
  inHunk : ∀ block ∈ blocks, block.kind ≠ .ending ∧ ¬ block.kind.isPassive

theorem gatherable_nil : Gatherable [] where
  segments := Nat.zero_le _
  symbols := Nat.zero_le _
  externals := Nat.zero_le _
  names := .nil
  inHunk := fun _ hm ↦ nomatch hm

theorem Gatherable.sublist (h : Gatherable part) (hsub : done.Sublist part) : Gatherable done where
  segments := (hsub.filterMap _).length_le.trans h.segments
  symbols := (hsub.filterMap _).length_le.trans h.symbols
  externals := (hsub.filterMap _).length_le.trans h.externals
  names := h.names.sublist (hsub.filterMap _)
  inHunk block hm := h.inHunk block (hsub.mem hm)

theorem Joins.run_add (h : Joins hunk block hunk') : run (add block) hunk = (.ok (), hunk') := by
  cases h with
  | segment h => simp [add, Action.run_bind, h]
  | name h => simp [add, Action.run_bind, h]
  | symbols h => simp [add, Action.run_bind, h]
  | externals h => simp [add, Action.run_bind, h]
  | debug => rfl
  | relocs => rfl

section Concat

variable {α : Type} (f : Block → Option α) (done : List Block) (block : Block)

theorem filterMap_concat : (done ++ [block]).filterMap f =
    (f block).elim (done.filterMap f) fun a ↦ done.filterMap f ++ [a] := by
  rw [List.filterMap_append]
  cases h : f block <;> simp [h]

theorem getLast?_filterMap_concat :
    ((done ++ [block]).filterMap f).getLast? = (f block).or (done.filterMap f).getLast? := by
  rw [filterMap_concat]
  cases f block <;> simp

theorem gathered_concat : gathered (done ++ [block]) =
    { segment := block.segment?.or (gathered done).segment
      name := block.name?.getD (gathered done).name
      symbols := block.symbols?.or (gathered done).symbols
      externals := block.externals?.or (gathered done).externals
      relocs := block.relocs?.elim (gathered done).relocs fun relocs ↦ (gathered done).relocs ++ [relocs]
      debug := block.debug?.elim (gathered done).debug fun data ↦ (gathered done).debug ++ [data]
      sizeLongs := (block.segment?.map (·.2.sizeLongs)).getD (gathered done).sizeLongs
      memFlags := (block.segment?.map (·.2.memFlags)).getD (gathered done).memFlags
      memAttr := none } := by
  rw [gathered, gathered]
  simp only [List.getLastD_eq_getLast?, getLast?_filterMap_concat]
  simp only [filterMap_concat, Hunk.mk.injEq, true_and, and_true]
  refine ⟨?_, ?_, ?_⟩
  · cases block.name? <;> rfl
  · cases block.segment? <;> rfl
  · cases block.segment? <;> rfl

end Concat

/-- What can be in a hunk with the blocks in front of it joins them. -/
theorem Gatherable.joins (h : Gatherable (done ++ [block])) :
    Joins (gathered done) block (gathered (done ++ [block])) := by
  have hsegments := h.segments
  have hsymbols := h.symbols
  have hexternals := h.externals
  have hnames := h.names
  have hin := h.inHunk block (List.mem_append_right _ (List.mem_singleton_self _))
  rw [List.filterMap_append, List.length_append] at hsegments hsymbols hexternals
  rw [List.filterMap_append] at hnames
  rw [gathered_concat]
  rcases block with ⟨frame, body⟩ | ⟨frame, blocks⟩
  · cases body with
    | segment kind content =>
      have hnone : done.filterMap Block.segment? = [] := by simpa [Block.segment?] using hsegments
      exact .segment (List.getLast?_eq_none_iff.mpr hnone)
    | name name =>
      refine .name ?_
      cases hlast : (done.filterMap Block.name?).getLast? with
      | none =>
        rw [gathered, List.getLastD_eq_getLast?, hlast]
        rfl
      | some last =>
        rw [gathered, List.getLastD_eq_getLast?, hlast]
        exact (List.pairwise_append.mp hnames).2.2 last (List.mem_of_getLast? hlast) name
          (List.mem_singleton_self _)
    | symbols entries =>
      have hnone : done.filterMap Block.symbols? = [] := by simpa [Block.symbols?] using hsymbols
      exact .symbols (List.getLast?_eq_none_iff.mpr hnone)
    | externals entries =>
      have hnone : done.filterMap Block.externals? = [] := by simpa [Block.externals?] using hexternals
      exact .externals (List.getLast?_eq_none_iff.mpr hnone)
    | debug data => exact .debug
    | relocs kind groups => exact .relocs
    | ending => exact absurd rfl hin.1
    | header _ => exact absurd rfl hin.2
    | unit _ => exact absurd rfl hin.2
    | overlay _ => exact absurd rfl hin.2
    | continuation _ => exact absurd rfl hin.2
    | pause => exact absurd rfl hin.2
    | index _ => exact absurd rfl hin.2
  · exact absurd rfl hin.2

theorem all_empty_of_getLastD {names : List String} (h : names.Pairwise fun first _ ↦ first = "")
    (hlast : names.getLastD "" = "") : ∀ name ∈ names, name = "" := by
  rcases List.eq_nil_or_concat' names with rfl | ⟨front, last, rfl⟩
  · simp
  · obtain ⟨-, -, hfront⟩ := List.pairwise_append.mp h
    intro name hm
    rcases List.mem_append.mp hm with hm | hm
    · exact hfront name hm last (List.mem_singleton_self _)
    · rw [List.mem_singleton.mp hm]
      simpa using hlast

theorem Joins.gatherable (hj : Joins (gathered done) block hunk') (h : Gatherable done) :
    Gatherable (done ++ [block]) := by
  have hin : ∀ b ∈ done ++ [block], b.kind ≠ .ending ∧ ¬ b.kind.isPassive := by
    intro b hb
    rcases List.mem_append.mp hb with hb | hb
    · exact h.inHunk b hb
    · rw [List.mem_singleton.mp hb]
      cases hj <;> exact ⟨nofun, nofun⟩
  have hsegments := h.segments
  have hsymbols := h.symbols
  have hexternals := h.externals
  have hnames := h.names
  refine ⟨?_, ?_, ?_, ?_, hin⟩ <;> rw [filterMap_concat]
  · cases hj with
    | segment hnone => simp [Block.segment?, List.getLast?_eq_none_iff.mp hnone]
    | _ => exact hsegments
  · cases hj with
    | symbols hnone => simp [Block.symbols?, List.getLast?_eq_none_iff.mp hnone]
    | _ => exact hsymbols
  · cases hj with
    | externals hnone => simp [Block.externals?, List.getLast?_eq_none_iff.mp hnone]
    | _ => exact hexternals
  · cases hj with
    | name hlast =>
      refine List.pairwise_append.mpr ⟨hnames, List.pairwise_singleton _ _, fun name hm _ _ ↦ ?_⟩
      exact all_empty_of_getLastD hnames hlast name hm
    | _ => exact hnames

/-- Blocks go into a hunk one after the other if it can have all of them, and else one of them fails. -/
theorem forEach_add (part : List Block) :
    (Gatherable part ∧ run (Action.forEach part add) empty = (.ok (), gathered part)) ∨
      ¬ Gatherable part ∧ ∃ e hunk, run (Action.forEach part add) empty = (.error e, hunk) := by
  have hgather : ∀ {done : List Block} {hunk : Hunk}, run (Action.forEach done add) empty = (.ok (), hunk) →
      Gatherable done ∧ hunk = gathered done := by
    intro done hunk hrun
    refine Action.forEach_invariant (fun done hunk ↦ Gatherable done ∧ hunk = gathered done) ?_
      ⟨gatherable_nil, rfl⟩ hrun
    rintro done block rest _ hunk' - ⟨h, rfl⟩ hrun
    have hnext := (add_joins hrun).gatherable h
    refine ⟨hnext, ?_⟩
    cases hrun.symm.trans hnext.joins.run_add
    rfl
  rcases hrun : run (Action.forEach part add) empty with ⟨e | _, hunk⟩
  -- all blocks up to the failing one could be had if the whole part could, and then it would have joined
  · refine Or.inr ⟨fun h ↦ ?_, e, hunk, rfl⟩
    obtain ⟨done, block, rest, _, rfl, hdone, hlast⟩ := Action.of_run_forEach_eq_error hrun
    obtain ⟨-, rfl⟩ := hgather hdone
    have hnext : Gatherable (done ++ [block]) := h.sublist (by simp)
    cases hlast.symm.trans hnext.joins.run_add
  · obtain ⟨h, rfl⟩ := hgather hrun
    exact Or.inl ⟨h, rfl⟩

theorem run_ofBlocks (h : Gatherable part) (hs : (gathered part).segment ≠ none) :
    run (ofBlocks part) () = (.ok (gathered part), ()) := by
  obtain ⟨-, hrun⟩ | ⟨hn, -⟩ := forEach_add part
  · have hgather : run (gather part) empty = (.ok (), gathered part) := by
      rw [gather, Action.run_bind_ok hrun, Action.run_bind_ok (Action.run_get _), if_neg (by simpa using hs)]
      rfl
    rw [ofBlocks, Action.run_bind, Action.run_within, hgather]
    rfl
  · exact absurd h hn

theorem run_ofBlocks_error (h : ¬ Gatherable part) : ∃ e, run (ofBlocks part) () = (.error e, ()) := by
  obtain ⟨hn, -⟩ | ⟨-, e, hunk, hrun⟩ := forEach_add part
  · exact absurd hn h
  · refine ⟨e, ?_⟩
    rw [ofBlocks, Action.run_bind, Action.run_within, gather, Action.run_bind_error hrun]
    rfl

end Hunk

end Hunks
