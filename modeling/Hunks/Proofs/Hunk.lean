import Mathlib
import Hunks.Hunk
import Hunks.Proofs.Block.InRange

namespace Hunks

open Hunks.Action (run)

namespace Hunk

/-- How a hunk takes up a block. -/
inductive Joins (hunk : Hunk) : Block → Hunk → Prop
  | segment {frame : Frame} {kind : SegmentKind} {content : SegmentContent} :
      hunk.segment = none → Joins hunk (.plain frame (.segment kind content))
        { hunk with
          segment := some (kind, content), sizeLongs := content.sizeLongs,
          memFlags := content.memFlags }
  | name {frame : Frame} {name : String} :
      hunk.name = "" → Joins hunk (.plain frame (.name name)) { hunk with name }
  | symbols {frame : Frame} {entries : List SymbolEntry} :
      hunk.symbols = none →
      Joins hunk (.plain frame (.symbols entries)) { hunk with symbols := some entries }
  | externals {frame : Frame} {entries : List External} :
      hunk.externals = none →
      Joins hunk (.plain frame (.externals entries)) { hunk with externals := some entries }
  | debug {frame : Frame} {data : Bytes} :
      Joins hunk (.plain frame (.debug data)) { hunk with debug := hunk.debug ++ [data] }
  | relocs {frame : Frame} {kind : RelocKind} {groups : List RelocGroup} :
      Joins hunk (.plain frame (.relocs kind groups))
        { hunk with relocs := hunk.relocs ++ [(kind, groups)] }

theorem add_joins {block : Block} {hunk hunk' : Hunk}
    (h : run (add block) hunk = (.ok (), hunk')) : Joins hunk block hunk' := by
  unfold add at h
  rw [Action.run_bind, Action.run_get] at h
  dsimp only at h
  split at h
  · obtain ⟨hs, h⟩ := Action.run_guard_eq_ok.mp h
    cases h
    exact .segment (by simpa using hs)
  · obtain ⟨hn, h⟩ := Action.run_guard_eq_ok.mp h
    cases h
    exact .name (by simpa using hn)
  · obtain ⟨hs, h⟩ := Action.run_guard_eq_ok.mp h
    cases h
    exact .symbols (by simpa using hs)
  · obtain ⟨he, h⟩ := Action.run_guard_eq_ok.mp h
    cases h
    exact .externals (by simpa using he)
  · cases h
    exact .debug
  · cases h
    exact .relocs
  · cases h

/-- What the numbers of a hunk keep of the blocks it was gathered from. -/
structure InRange (hunk : Hunk) : Prop where
  segment : ∀ kind content, hunk.segment = some (kind, content) →
    (∃ tag, content.InRange kind tag) ∧ content.sizeLongs ≤ hunk.sizeLongs
  relocs : ∀ p ∈ hunk.relocs, ∀ group ∈ p.2, group.InRange p.1.numberBytes
  externals : ∀ entries, hunk.externals = some entries → ∀ entry ∈ entries, entry.InRange

theorem empty_inRange : empty.InRange where
  segment := by simp [empty]
  relocs := by simp [empty]
  externals := by simp [empty]

variable {executable : Bool}

theorem Joins.inRange {block : Block} {hunk hunk' : Hunk} (h : Joins hunk block hunk')
    (hb : block.InRange executable) (hh : hunk.InRange) : hunk'.InRange := by
  cases h with
  | segment hs =>
    obtain ⟨tag, _, _, hc⟩ := hb
    refine ⟨?_, hh.relocs, hh.externals⟩
    rintro kind content ⟨rfl⟩
    exact ⟨⟨tag, hc⟩, le_rfl⟩
  | name | symbols | debug => exact ⟨hh.segment, hh.relocs, hh.externals⟩
  | externals he =>
    obtain ⟨tag, _, _, hc⟩ := hb
    refine ⟨hh.segment, hh.relocs, ?_⟩
    rintro entries ⟨rfl⟩
    exact hc
  | relocs =>
    obtain ⟨tag, _, _, hc⟩ := hb
    refine ⟨hh.segment, ?_, hh.externals⟩
    intro p hp
    rcases List.mem_append.mp hp with hp | hp
    · exact hh.relocs p hp
    · rw [List.mem_singleton.mp hp]
      exact hc

theorem ofBlocks_inRange {blocks : List Block} (hb : ∀ block ∈ blocks, block.InRange executable)
    {hunk : Hunk} (h : run (ofBlocks blocks) () = (.ok hunk, ())) :
    hunk.InRange ∧ hunk.segment ≠ none := by
  obtain ⟨⟨_, hunk'⟩, _, hw, he⟩ := Action.run_bind_eq_ok.mp h
  cases he
  obtain ⟨hg, _⟩ := Action.run_within_eq_ok.mp hw
  obtain ⟨_, gathered, hf, hg⟩ := Action.run_bind_eq_ok.mp hg
  rw [Action.run_bind, Action.run_get] at hg
  obtain ⟨hs, hg⟩ := Action.run_guard_eq_ok.mp hg
  rw [Action.run_pure, Prod.mk.injEq] at hg
  obtain ⟨_, rfl⟩ := hg
  refine ⟨?_, fun h ↦ hs (by rw [h]; rfl)⟩
  refine Action.forEach_invariant (fun _ hunk ↦ hunk.InRange) ?_ empty_inRange hf
  intro done block rest s s' he hs hr
  exact (add_joins hr).inRange (hb block (by simp [he])) hs

namespace Division

/-- All blocks that have found a hunk or wait for one. -/
def blocks (division : Division) : List Block :=
  division.closed.flatten ++ division.current.getD [] ++ division.pending

theorem mem_blocks_close {division : Division} {block : Block} :
    block ∈ division.close.blocks ↔ block ∈ division.blocks := by
  rcases division with ⟨closed, _ | current, pending⟩
  · rfl
  · simp only [close, blocks, List.flatten_cons, Option.getD_some, Option.getD_none, List.mem_append,
      List.mem_reverse]
    tauto

theorem add_blocks {block : Block} {division division' : Division}
    (h : add block division = .ok division') {b : Block} (hb : b ∈ division'.blocks) :
    b = block ∨ b ∈ division.blocks := by
  unfold add at h
  dsimp only at h
  split at h
  · cases h
    exact Or.inr (mem_blocks_close.mp hb)
  · cases h
    rw [← mem_blocks_close]
    have hc : division.close.current = none := by
      rcases division with ⟨_, _ | _, _⟩ <;> rfl
    have hp : division.close.pending = division.pending := by
      rcases division with ⟨_, _ | _, _⟩ <;> rfl
    simp only [blocks, hc, hp, Option.getD_some, Option.getD_none, List.mem_append, List.mem_cons,
      List.append_nil] at hb ⊢
    tauto
  · split at h
    · cases h
    · cases h
      rename_i current hcur _ _ _
      simp only [blocks, hcur, Option.getD_some, List.mem_append, List.mem_cons] at hb ⊢
      tauto
  · cases h
    simp only [blocks, List.mem_append, List.mem_cons] at hb ⊢
    tauto
  · split at h
    · cases h
      exact Or.inr hb
    · cases h

end Division

theorem divide_mem {blocks : List Block} {parts : List (List Block)}
    (h : run (divide blocks) () = (.ok parts, ())) {part : List Block} (hp : part ∈ parts)
    {block : Block} (hb : block ∈ part) : block ∈ blocks := by
  obtain ⟨division, _, hf, h⟩ := Action.run_bind_eq_ok.mp h
  obtain ⟨_, h⟩ := Action.run_guard_eq_ok.mp h
  cases h
  have hd := Action.foldl_invariant (fun done division (_ : Unit) ↦ ∀ b ∈ division.blocks, b ∈ done)
    (by
      intro done block rest division _ division' _ he hd hr b hb
      obtain ⟨_, _, _, hr⟩ := Action.run_bind_eq_ok.mp hr
      rw [Action.run_ofExcept, Prod.mk.injEq] at hr
      rcases Division.add_blocks hr.1 hb with rfl | hb
      · simp
      · exact List.mem_append_left _ (hd b hb))
    (by simp [Division.blocks]) hf
  apply hd
  rw [← Division.mem_blocks_close]
  simp only [Division.blocks, List.append_assoc, List.mem_append, List.mem_flatten]
  exact Or.inl ⟨part, by simpa using hp, hb⟩

theorem allocate_mem {header : Header} {hunks : List Hunk} {hunk : Hunk}
    (h : hunk ∈ allocate header hunks) : ∃ found ∈ hunks, ∃ sizeLongs memFlags memAttr,
      found.sizeLongs ≤ sizeLongs ∧ hunk = { found with sizeLongs, memFlags, memAttr } := by
  simp only [allocate, List.mem_map] at h
  obtain ⟨⟨found, i⟩, hf, rfl⟩ := h
  have hm : found ∈ hunks := List.fst_mem_of_mem_zipIdx hf
  dsimp only
  split
  · exact ⟨found, hm, _, _, _, le_max_right _ _, rfl⟩
  · exact ⟨found, hm, _, _, _, le_rfl, rfl⟩

end Hunk

namespace File

variable {file : File} {hunks : List Hunk}

/-- The hunks of a file have the numbers of its blocks, and each has a segment block. -/
theorem hunks_inRange {executable : Bool}
    (hb : ∀ block ∈ file.blocks, block.InRange executable)
    (h : run file.hunks () = (.ok hunks, ())) :
    ∀ hunk ∈ hunks, hunk.InRange ∧ hunk.segment ≠ none := by
  obtain ⟨_, h⟩ := Action.run_guard_eq_ok.mp h
  obtain ⟨header, _, hh, h⟩ := Action.run_bind_eq_ok.mp h
  obtain ⟨parts, _, hd, h⟩ := Action.run_bind_eq_ok.mp h
  obtain ⟨found, _, hf, h⟩ := Action.run_bind_eq_ok.mp h
  obtain ⟨hsize, hfound⟩ := Action.foldl_push (fun _ part hunk ↦ run (Hunk.ofBlocks part) () = (.ok hunk, ()))
    (by
      intro found part _ found' _ hr
      obtain ⟨hunk, _, ho, hr⟩ := Action.run_bind_eq_ok.mp hr
      cases hr
      exact ⟨hunk, rfl, ho⟩) hf
  have hin : ∀ hunk ∈ found.toList, hunk.InRange ∧ hunk.segment ≠ none := by
    intro hunk hm
    obtain ⟨i, hi, rfl⟩ := List.getElem_of_mem hm
    have hp : i < parts.length := by simpa [← hsize] using hi
    obtain ⟨hunk', hg, ho⟩ := hfound i parts[i] (List.getElem?_eq_getElem hp)
    have he : found.toList[i] = hunk' := by
      rw [← Array.getElem?_toList, List.getElem?_eq_getElem hi] at hg
      exact Option.some.inj hg
    rw [he]
    exact Hunk.ofBlocks_inRange
      (fun block hm ↦ hb block (Hunk.divide_mem hd (List.getElem_mem hp) hm)) ho
  cases header with
  | none =>
    cases h
    exact hin
  | some header =>
    obtain ⟨_, h⟩ := Action.run_guard_eq_ok.mp h
    cases h
    intro hunk hm
    obtain ⟨before, hbefore, sizeLongs, memFlags, memAttr, hle, rfl⟩ := Hunk.allocate_mem hm
    obtain ⟨hr, hs⟩ := hin before hbefore
    refine ⟨⟨fun kind content hc ↦ ?_, hr.relocs, hr.externals⟩, hs⟩
    obtain ⟨ht, hl⟩ := hr.segment kind content hc
    exact ⟨ht, hl.trans hle⟩

end File

end Hunks
