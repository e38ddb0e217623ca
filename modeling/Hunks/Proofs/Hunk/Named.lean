import Mathlib
import Hunks.Proofs.Hunk.Assembled

namespace Hunks

open Hunks.Action (run)

namespace Hunk

variable {names : List String}

/-- Of names each of which may only follow empty ones, the last one counts, and there is just one unless an empty
one stands in front of it. -/
theorem names_settled (h : names.Pairwise fun first _ ↦ first = "") :
    (∀ name ∈ names.dropLast, name = "") ∧
      ((names = [] ∧ names.getLastD "" = "" ∨ names = [names.getLastD ""]) ↔ "" ∉ names.dropLast) := by
  rcases List.eq_nil_or_concat' names with rfl | ⟨front, last, rfl⟩
  · simp
  · obtain ⟨-, -, hfront⟩ := List.pairwise_append.mp h
    have hempty : ∀ name ∈ front, name = "" := fun name hm ↦ hfront name hm last (List.mem_singleton_self _)
    rw [List.dropLast_concat]
    refine ⟨hempty, ?_⟩
    cases front with
    | nil => simp
    | cons first front =>
      obtain rfl := hempty first List.mem_cons_self
      simp

theorem exists_split_at {blocks : List Block} {i : Nat} (h : blocks[i]?.any (·.kind.isSegment)) :
    ∃ segment, blocks = blocks.take i ++ segment :: blocks.drop (i + 1) ∧ segment.kind.isSegment := by
  obtain ⟨segment, hget, hs⟩ := (Option.any_eq_true _ _).mp h
  obtain ⟨hi, rfl⟩ := List.getElem?_eq_some_iff.mp hget
  exact ⟨_, by rw [List.getElem_cons_drop, List.take_append_drop], hs⟩

end Hunk

namespace File

open Hunk (Divisible Gatherable allocate gathered own parts waiting)

variable {file : File} {hunks : List Hunk} {header : Option Header} {found : Array Hunk}

theorem of_run_finish (h : run (finish header found) () = (.ok hunks, ())) :
    hunks = (header.map (allocate · found.toList)).getD found.toList := by
  cases header with
  | none =>
    cases h
    rfl
  | some header =>
    by_cases hcount : header.sizes.length = found.toList.length
    · rw [run_finish fun _ hm ↦ Option.some.inj hm ▸ hcount] at h
      cases h
      rfl
    · rw [run_finish_error hcount] at h
      cases h

/-- A file that has hunks was divided, and each part gathered; a header may have changed their sizes. -/
theorem of_run_hunks (h : run file.hunks () = (.ok hunks, ())) :
    Divisible file.blocks ∧ (∀ part ∈ parts file.blocks, Gatherable part) ∧ ∃ header : Option Header,
      hunks = (header.map (allocate · ((parts file.blocks).map gathered))).getD
        ((parts file.blocks).map gathered) := by
  have hne : file.blocks ≠ [] := by
    intro hnil
    rw [File.hunks, if_pos (by simp [hnil])] at h
    cases h
  cases hh : file.header? with
  | error e =>
    rw [run_hunks_header_error hne hh] at h
    cases h
  | ok header =>
    obtain ⟨hd, hdivide⟩ | ⟨-, e, hdivide⟩ := Hunk.divide_settled file.blocks
    · obtain ⟨hall, hgather⟩ | ⟨-, e, hgather⟩ :=
        Hunk.gatherAll_settled (fun part (hm : part ∈ parts file.blocks) ↦ Hunk.segment_of_parts hm) #[]
      · rw [run_hunks hne hh hdivide, Action.run_bind_ok hgather] at h
        exact ⟨hd, hall, header, by simpa using of_run_finish h⟩
      · rw [run_hunks hne hh hdivide, Action.run_bind_error hgather] at h
        cases h
    · rw [run_hunks_divide_error hne hh hdivide] at h
      cases h

/-- The name of a hunk is that of the last name block in front of its segment block or in it, and empty without
one. All others are empty, so that it has at most one exactly if no empty one stands in front of another. -/
theorem hunks_named (file : File) (hunks : List Hunk) (h : run file.hunks () = (.ok hunks, ())) :
    hunks.length = file.blocks.countP (·.kind.isSegment) ∧
      ∀ front segment behind, file.blocks = front ++ segment :: behind → segment.kind.isSegment →
        let names := (waiting front ++ own behind).filterMap Block.name?
        ∃ hunk, hunks[front.countP (·.kind.isSegment)]? = some hunk ∧ hunk.name = names.getLastD "" ∧
          (∀ name ∈ names.dropLast, name = "") ∧
          ((names = [] ∧ hunk.name = "" ∨ names = [hunk.name]) ↔ "" ∉ names.dropLast) := by
  obtain ⟨hd, hall, header, hhunks⟩ := of_run_hunks h
  have hnames : hunks.map Hunk.name = ((parts file.blocks).map gathered).map Hunk.name := by
    rw [hhunks]
    exact map_finished header _ fun _ _ _ _ ↦ rfl
  constructor
  · have hlength := congrArg List.length hnames
    rwa [List.length_map, List.length_map, List.length_map, Hunk.length_parts] at hlength
  · intro front segment behind hsplit hs names
    obtain ⟨frame, kind, content, rfl⟩ := Block.exists_segment hs
    have hsingle := (Hunk.gatherable_parts_iff hd).mp hall front _ behind hsplit rfl
    have hget := congrArg (·[front.countP (·.kind.isSegment)]?) hnames
    simp only [List.getElem?_map, Hunk.getElem?_parts hsplit, Option.map_some] at hget
    obtain ⟨hunk, hhunk, hname⟩ := Option.map_eq_some_iff.mp hget
    have hname' : hunk.name = names.getLastD "" := hname.trans hsingle.madeOf.name
    obtain ⟨hempty, hone⟩ := Hunk.names_settled hsingle.names
    exact ⟨hunk, hhunk, hname', hempty, by rwa [hname']⟩

/-- The first hunk of the sample is named in front of its segment block. -/
theorem hunks_named_sample : ∃ hunks front segment behind, run sampleFile.hunks () = (.ok hunks, ()) ∧
    hunks.length = 2 ∧ sampleFile.blocks = front ++ segment :: behind ∧ segment.kind.isSegment ∧
      (waiting front ++ own behind).filterMap Block.name? = ["abc"] ∧
      ∃ hunk, hunks[0]? = some hunk ∧ hunk.name = "abc" := by
  have hok : (run sampleFile.hunks ()).1.isOk := by decide +kernel
  rcases hrun : run sampleFile.hunks () with ⟨e | hunks, _⟩
  · rw [hrun] at hok
    cases hok
  · obtain ⟨hlength, hnamed⟩ := hunks_named sampleFile hunks hrun
    let front := sampleFile.blocks.take 2
    let behind := sampleFile.blocks.drop 3
    obtain ⟨segment, hsplit, hs⟩ : ∃ segment, sampleFile.blocks = front ++ segment :: behind ∧
      segment.kind.isSegment := Hunk.exists_split_at (by decide +kernel)
    have hnames : (waiting front ++ own behind).filterMap Block.name? = ["abc"] := by decide +kernel
    have hfirst : front.countP (·.kind.isSegment) = 0 := by decide +kernel
    obtain ⟨hunk, hhunk, hname, -, -⟩ := hnamed front segment behind hsplit hs
    rw [hfirst] at hhunk
    rw [hnames] at hname
    refine ⟨hunks, front, segment, behind, rfl, ?_, hsplit, hs, hnames, hunk, hhunk, hname⟩
    rw [hlength]
    decide +kernel

/-- An object file of one code hunk behind an empty name and a name. -/
def twiceNamed : File where
  blocks := (Block.decodeAll false (.ofBytes ([0x3e7, 0, 0x3e8, 0, 0x3e8, 1, 0x78000000, 0x3e9, 1, 0x4e754e75,
    0x3f2].flatMap (Bytes.ofNat 4)).toArray none) 0).result.toOption.getD []
  kind := .unit

/-- A name that is empty is no name to the one behind it, so a hunk is made of both. -/
theorem twiceNamed_accepted : ∃ front segment behind,
    twiceNamed.blocks = front ++ segment :: behind ∧ segment.kind.isSegment ∧
      (waiting front ++ own behind).filterMap Block.name? = ["", "x"] ∧
      (run twiceNamed.hunks ()).1.map (List.map Hunk.name) = .ok ["x"] := by
  obtain ⟨segment, hsplit, hs⟩ : ∃ segment, twiceNamed.blocks = twiceNamed.blocks.take 3 ++ segment ::
    twiceNamed.blocks.drop 4 ∧ segment.kind.isSegment := Hunk.exists_split_at (by decide +kernel)
  exact ⟨_, segment, _, hsplit, hs, by decide +kernel, by decide +kernel⟩

end File

end Hunks
