import Mathlib
import Hunks.Proofs.Hunk.Divided

namespace Hunks

open Hunks.Action (run)

namespace Block

variable {block : Block}

theorem symbols?_eq_none (h : ¬ block.kind.isContent) : block.symbols? = none := by
  unfold symbols?
  split
  · exact absurd rfl h
  · rfl

theorem externals?_eq_none (h : ¬ block.kind.isContent) : block.externals? = none := by
  unfold externals?
  split
  · exact absurd rfl h
  · rfl

theorem debug?_eq_none (h : ¬ block.kind.isContent) : block.debug? = none := by
  unfold debug?
  split
  · exact absurd rfl h
  · rfl

theorem relocs?_eq_none (h : ¬ block.kind.isContent) : block.relocs? = none := by
  unfold relocs?
  split
  · exact absurd rfl h
  · rfl

theorem segment?_eq_none (h : ¬ block.kind.isSegment) : block.segment? = none := by
  unfold segment?
  split
  · exact absurd rfl h
  · rfl

/-- Blocks that were read have numbers that fit their fields. -/
theorem inRange_of_decodeAll {executable : Bool} {window : Window} {pos : Int} {blocks : List Block}
    (h : (decodeAll executable window pos).result = .ok blocks) :
    ∀ block ∈ blocks, block.InRange executable :=
  (allInRange_iff blocks).mp (decodeAll_yields _ _ _ _ (Action.result_eq h))

theorem exists_segment (h : block.kind.isSegment) :
    ∃ frame kind content, block = plain frame (.segment kind content) := by
  rcases block with ⟨frame, body⟩ | ⟨frame, blocks⟩
  · cases body with
    | segment kind content => exact ⟨frame, kind, content, rfl⟩
    | _ => cases h
  · cases h

end Block

namespace Hunk

variable {blocks front behind : List Block} {frame : Frame} {kind : SegmentKind} {content : SegmentContent}

theorem kind_of_waiting {block : Block} (h : block ∈ waiting front) : block.kind = .name :=
  of_decide_eq_true (List.mem_filter.mp h).2

theorem kind_of_own {block : Block} (h : block ∈ own behind) :
    ¬ block.kind.isSegment ∧ block.kind ≠ .ending := by
  simpa using List.mem_takeWhile_imp h

/-- The blocks of the hunk that starts with a segment block. -/
def hunkBlocks (front : List Block) (segment : Block) (behind : List Block) : List Block :=
  waiting front ++ segment :: own behind

/-- What says something about a hunk stands behind its segment block. -/
theorem filterMap_hunkBlocks {α : Type} {f : Block → Option α}
    (hf : ∀ {block : Block}, ¬ block.kind.isContent → f block = none) :
    (hunkBlocks front (.plain frame (.segment kind content)) behind).filterMap f = (own behind).filterMap f := by
  have hwaiting : (waiting front).filterMap f = [] :=
    List.filterMap_eq_nil_iff.mpr fun block hm ↦ hf (by simp [kind_of_waiting hm, Kind.isContent])
  have hsegment : f (.plain frame (.segment kind content)) = none := hf Bool.false_ne_true
  rw [hunkBlocks, List.filterMap_append, hwaiting, List.nil_append, List.filterMap_cons_none hsegment]

theorem segments_hunkBlocks :
    (hunkBlocks front (.plain frame (.segment kind content)) behind).filterMap Block.segment? =
      [(kind, content)] := by
  have hwaiting : (waiting front).filterMap Block.segment? = [] :=
    List.filterMap_eq_nil_iff.mpr fun block hm ↦
      Block.segment?_eq_none (by simp [kind_of_waiting hm, Kind.isSegment])
  have hown : (own behind).filterMap Block.segment? = [] :=
    List.filterMap_eq_nil_iff.mpr fun block hm ↦ Block.segment?_eq_none (kind_of_own hm).1
  rw [hunkBlocks, List.filterMap_append, hwaiting]
  simp [Block.segment?, hown]

theorem names_hunkBlocks :
    (hunkBlocks front (.plain frame (.segment kind content)) behind).filterMap Block.name? =
      (waiting front ++ own behind).filterMap Block.name? := by
  rw [hunkBlocks, List.filterMap_append, List.filterMap_append, List.filterMap_cons_none rfl]

/-- What the hunk of a segment block is asked for: one list of symbols and one of externals at most, and no
name behind one that is not empty. -/
structure Single (front behind : List Block) : Prop where
  symbols : ((own behind).filterMap Block.symbols?).length ≤ 1
  externals : ((own behind).filterMap Block.externals?).length ≤ 1
  names : ((waiting front ++ own behind).filterMap Block.name?).Pairwise fun first _ ↦ first = ""

/-- What a hunk has from its segment block and from the blocks that belong to it. -/
structure MadeOf (hunk : Hunk) (front : List Block) (kind : SegmentKind) (content : SegmentContent)
    (behind : List Block) : Prop where
  segment : hunk.segment = some (kind, content)
  name : hunk.name = ((waiting front ++ own behind).filterMap Block.name?).getLastD ""
  symbols : hunk.symbols.toList = (own behind).filterMap Block.symbols?
  externals : hunk.externals.toList = (own behind).filterMap Block.externals?
  relocs : hunk.relocs = (own behind).filterMap Block.relocs?
  debug : hunk.debug = (own behind).filterMap Block.debug?

theorem isOpen_append (h : IsOpen front) (hb : ∀ block ∈ behind, ¬ block.kind.isSegment ∧ block.kind ≠ .ending) :
    IsOpen (front ++ behind) := by
  induction behind using List.reverseRecOn with
  | nil => rwa [List.append_nil]
  | append_singleton behind block ih =>
    obtain ⟨hbehind, hblock⟩ := List.forall_mem_append.mp hb
    rw [← List.append_assoc]
    exact isOpen_concat.mpr (Or.inr ⟨ih hbehind, (hblock block (List.mem_singleton_self _)).2⟩)

theorem Divisible.own_inHunk (hd : Divisible blocks) {segment : Block} (hs : segment.kind.isSegment)
    (hsplit : blocks = front ++ segment :: behind) {block : Block} (hm : block ∈ own behind) :
    ¬ block.kind.isPassive := by
  obtain ⟨pre, post, hown⟩ := List.append_of_mem hm
  obtain ⟨rest, hrest⟩ : ∃ rest, own behind ++ rest = behind := ⟨_, List.takeWhile_append_dropWhile⟩
  have hopen : IsOpen (front ++ [segment] ++ pre) :=
    isOpen_append (isOpen_concat.mpr (Or.inl hs)) fun b hb ↦
      kind_of_own (hown ▸ List.mem_append_left _ hb)
  refine fun hp ↦ hd.passive (front ++ [segment] ++ pre) block (post ++ rest) ?_ hp hopen
  rw [hsplit, ← hrest, hown]
  simp

theorem gatherable_iff (hd : Divisible blocks)
    (hsplit : blocks = front ++ .plain frame (.segment kind content) :: behind) :
    Gatherable (hunkBlocks front (.plain frame (.segment kind content)) behind) ↔ Single front behind := by
  constructor
  · intro h
    have hsymbols := h.symbols
    have hexternals := h.externals
    have hnames := h.names
    rw [filterMap_hunkBlocks Block.symbols?_eq_none] at hsymbols
    rw [filterMap_hunkBlocks Block.externals?_eq_none] at hexternals
    rw [names_hunkBlocks] at hnames
    exact ⟨hsymbols, hexternals, hnames⟩
  · intro h
    refine ⟨?_, ?_, ?_, ?_, fun block hm ↦ ?_⟩
    · rw [segments_hunkBlocks, List.length_singleton]
    · rw [filterMap_hunkBlocks Block.symbols?_eq_none]
      exact h.symbols
    · rw [filterMap_hunkBlocks Block.externals?_eq_none]
      exact h.externals
    · rw [names_hunkBlocks]
      exact h.names
    · rcases List.mem_append.mp hm with hm | hm
      · rw [kind_of_waiting hm]
        decide
      · rcases List.mem_cons.mp hm with rfl | hm
        · exact ⟨nofun, nofun⟩
        · exact ⟨(kind_of_own hm).2, hd.own_inHunk rfl hsplit hm⟩

theorem toList_getLast? {α : Type} {as : List α} (h : as.length ≤ 1) : as.getLast?.toList = as := by
  rcases as with _ | ⟨a, _ | ⟨b, as⟩⟩
  · rfl
  · rfl
  · simp at h

theorem Single.madeOf (h : Single front behind) :
    (gathered (hunkBlocks front (.plain frame (.segment kind content)) behind)).MadeOf front kind content
      behind where
  segment := congrArg List.getLast? segments_hunkBlocks
  name := congrArg (List.getLastD · "") names_hunkBlocks
  symbols := by
    rw [gathered, filterMap_hunkBlocks Block.symbols?_eq_none]
    exact toList_getLast? h.symbols
  externals := by
    rw [gathered, filterMap_hunkBlocks Block.externals?_eq_none]
    exact toList_getLast? h.externals
  relocs := filterMap_hunkBlocks Block.relocs?_eq_none
  debug := filterMap_hunkBlocks Block.debug?_eq_none

theorem sizeLongs_hunkBlocks :
    (gathered (hunkBlocks front (.plain frame (.segment kind content)) behind)).sizeLongs =
      content.sizeLongs := by
  rw [gathered, segments_hunkBlocks]
  rfl

theorem exists_hunkBlocks {part : List Block} (h : part ∈ parts blocks) : ∃ front frame kind content behind,
    blocks = front ++ .plain frame (.segment kind content) :: behind ∧
      part = hunkBlocks front (.plain frame (.segment kind content)) behind := by
  obtain ⟨front, segment, behind, hsplit, hs, hpart⟩ := exists_split_of_mem h
  obtain ⟨frame, kind, content, rfl⟩ := Block.exists_segment hs
  exact ⟨front, frame, kind, content, behind, hsplit, hpart⟩

theorem getElem?_parts (hsplit : blocks = front ++ .plain frame (.segment kind content) :: behind) :
    (parts blocks)[front.countP (·.kind.isSegment)]? =
      some (hunkBlocks front (.plain frame (.segment kind content)) behind) := by
  rw [parts, hsplit]
  exact getElem?_partsFrom rfl

theorem length_parts (blocks : List Block) : (parts blocks).length = blocks.countP (·.kind.isSegment) :=
  length_partsFrom

theorem segment_of_parts {part : List Block} (h : part ∈ parts blocks) : (gathered part).segment ≠ none := by
  obtain ⟨front, frame, kind, content, behind, -, rfl⟩ := exists_hunkBlocks h
  rw [gathered, segments_hunkBlocks]
  exact Option.some_ne_none _

theorem gatherable_parts_iff (hd : Divisible blocks) : (∀ part ∈ parts blocks, Gatherable part) ↔
    ∀ front segment behind, blocks = front ++ segment :: behind → segment.kind.isSegment →
      Single front behind := by
  constructor
  · intro h front segment behind hsplit hs
    obtain ⟨frame, kind, content, rfl⟩ := Block.exists_segment hs
    exact (gatherable_iff hd hsplit).mp (h _ (List.mem_of_getElem? (getElem?_parts hsplit)))
  · intro h part hm
    obtain ⟨front, frame, kind, content, behind, hsplit, rfl⟩ := exists_hunkBlocks hm
    exact (gatherable_iff hd hsplit).mpr (h front _ behind hsplit rfl)

/-- The hunks have between them what the blocks say, in the same order. -/
theorem flatMap_gathered {α : Type} {f : Block → Option α} {g : Hunk → List α} (hd : Divisible blocks)
    (hf : ∀ {block : Block}, ¬ block.kind.isContent → f block = none)
    (hg : ∀ part ∈ parts blocks, g (gathered part) = part.filterMap f) :
    ((parts blocks).map gathered).flatMap g = blocks.filterMap f := by
  have hclosed : ¬ IsOpen [] := fun h ↦ by simpa using h.1
  have hparts := flatMap_partsFrom (fun _ ↦ hf) [] hd.content
  rw [if_neg hclosed] at hparts
  rw [List.flatMap_map, List.flatMap_congr hg]
  exact hparts

def gatherAll (found : Array Hunk) (parts : List (List Block)) : Action Unit ParseError (Array Hunk) :=
  Action.foldl (fun (found : Array Hunk) blocks ↦ do
    let hunk ← ofBlocks blocks
    Action.debug s!"hunk #{found.size}: {hunk.describe}"
    return found.push hunk) found parts

theorem gatherAll_settled {parts : List (List Block)} (hs : ∀ part ∈ parts, (gathered part).segment ≠ none)
    (found : Array Hunk) :
    ((∀ part ∈ parts, Gatherable part) ∧
      run (gatherAll found parts) () = (.ok (found ++ (parts.map gathered).toArray), ())) ∨
    (∃ part ∈ parts, ¬ Gatherable part) ∧ ∃ e, run (gatherAll found parts) () = (.error e, ()) := by
  induction parts generalizing found with
  | nil => exact Or.inl ⟨fun _ hm ↦ (nomatch hm), by simp [gatherAll]⟩
  | cons part parts ih =>
    obtain ⟨hfirst, hrest⟩ := List.forall_mem_cons.mp hs
    rw [gatherAll, Action.run_foldl_cons]
    by_cases hpart : Gatherable part
    · have hpush : run (do
          let hunk ← ofBlocks part
          Action.debug s!"hunk #{found.size}: {hunk.describe}"
          return found.push hunk) () = (.ok (found.push (gathered part)), ()) :=
        (Action.run_bind_ok (run_ofBlocks hpart hfirst)).trans (Action.run_bind_ok (Action.run_debug _ _))
      rw [Action.run_bind_ok hpush]
      obtain ⟨hall, hrun⟩ | ⟨⟨other, hm, hn⟩, he⟩ := ih hrest (found.push (gathered part))
      · refine Or.inl ⟨List.forall_mem_cons.mpr ⟨hpart, hall⟩, hrun.trans ?_⟩
        simp
      · exact Or.inr ⟨⟨other, List.mem_cons_of_mem _ hm, hn⟩, he⟩
    · obtain ⟨e, he⟩ := run_ofBlocks_error hpart
      exact Or.inr ⟨⟨part, List.mem_cons_self, hpart⟩, e, Action.run_bind_error (Action.run_bind_error he)⟩

theorem getElem?_allocate (header : Header) (hunks : List Hunk) (i : Nat) :
    (allocate header hunks)[i]? = hunks[i]?.map fun hunk ↦
      match (header.sizes.zip (header.memFlags.zip header.memAttrs))[i]? with
      | some (size, memFlags, memAttr) =>
        { hunk with
          sizeLongs := max size hunk.sizeLongs, memFlags := orFlags hunk.memFlags memFlags, memAttr }
      | none => hunk := by
  rw [allocate, List.getElem?_map, List.getElem?_zipIdx, Option.map_map, Nat.zero_add]
  refine congrArg (hunks[i]?.map ·) (funext fun hunk ↦ ?_)
  cases hslot : (header.sizes.zip (header.memFlags.zip header.memAttrs))[i]? <;>
    simp only [Function.comp_apply, hslot]

theorem map_allocate {α : Type} {f : Hunk → α} (header : Header) (hunks : List Hunk)
    (hf : ∀ hunk sizeLongs memFlags memAttr, f { hunk with sizeLongs, memFlags, memAttr } = f hunk) :
    (allocate header hunks).map f = hunks.map f := by
  refine List.ext_getElem? fun i ↦ ?_
  rw [List.getElem?_map, List.getElem?_map, getElem?_allocate, Option.map_map]
  refine congrArg (hunks[i]?.map ·) (funext fun hunk ↦ ?_)
  rw [Function.comp_apply]
  split
  · exact hf ..
  · rfl

end Hunk

namespace File

open Hunk (Divisible IsOpen MadeOf Single allocate divide gathered gatherAll parts)

variable {file : File}

/-- A file whose blocks make hunks. -/
structure Accepted (file : File) : Prop extends Divisible file.blocks where
  single : ∀ front segment behind, file.blocks = front ++ segment :: behind → segment.kind.isSegment →
    Single front behind
  header : file.isProgram → ∃ frame header rest, file.blocks = .plain frame (.header header) :: rest ∧
    header.sizes.length = file.blocks.countP (·.kind.isSegment)

/-- The hunks of a file: one for each segment block, in order, with what stands in it. Between them they have
all that the file says about hunks. -/
structure Assembled (file : File) (hunks : List Hunk) : Prop where
  length : hunks.length = file.blocks.countP (·.kind.isSegment)
  made : ∀ front frame kind content behind,
    file.blocks = front ++ .plain frame (.segment kind content) :: behind →
      ∃ hunk, hunks[front.countP (·.kind.isSegment)]? = some hunk ∧ hunk.MadeOf front kind content behind ∧
        (¬ file.isProgram → hunk.sizeLongs = content.sizeLongs) ∧
        (file.isProgram → ∃ frame header rest size, file.blocks = .plain frame (.header header) :: rest ∧
          header.sizes[front.countP (·.kind.isSegment)]? = some size ∧
          hunk.sizeLongs = max content.sizeLongs size)
  symbols : hunks.flatMap (·.symbols.toList) = file.blocks.filterMap Block.symbols?
  externals : hunks.flatMap (·.externals.toList) = file.blocks.filterMap Block.externals?
  relocs : hunks.flatMap (·.relocs) = file.blocks.filterMap Block.relocs?
  debug : hunks.flatMap (·.debug) = file.blocks.filterMap Block.debug?

theorem header?_settled (file : File) :
    (¬ file.isProgram ∧ file.header? = .ok none) ∨
    (file.isProgram ∧ ∃ frame header rest, file.blocks = .plain frame (.header header) :: rest ∧
      file.header? = .ok (some header)) ∨
    file.isProgram ∧ (∀ frame header rest, file.blocks ≠ .plain frame (.header header) :: rest) ∧
      file.header? = .error .noHeader := by
  rw [header?]
  split <;> rename_i hprogram
  · split <;> rename_i hblocks
    · exact Or.inr (Or.inl ⟨hprogram, _, _, _, hblocks, rfl⟩)
    · exact Or.inr (Or.inr ⟨hprogram, hblocks, rfl⟩)
  · exact Or.inl ⟨hprogram, rfl⟩

/-- What is left to do when the hunks are gathered. -/
def finish (header : Option Header) (found : Array Hunk) : Action Unit ParseError (List Hunk) := do
  let hunks := found.toList
  if let some header := header then
    if header.sizes.length ≠ hunks.length then
      throw (.hunkCount hunks.length header.sizes.length)
  Action.info s!"found {hunks.length} hunks"
  return (header.map (allocate · hunks)).getD hunks

theorem run_hunks (hne : file.blocks ≠ []) {header : Option Header} (hh : file.header? = .ok header)
    {found : List (List Block)} (hd : run (divide file.blocks) () = (.ok found, ())) :
    run file.hunks () = run (gatherAll #[] found >>= finish header) () := by
  rw [hunks, if_neg (by simpa using hne), hh]
  exact (Action.run_bind_ok rfl).trans (Action.run_bind_ok hd)

theorem run_hunks_header_error (hne : file.blocks ≠ []) {e : ParseError} (hh : file.header? = .error e) :
    run file.hunks () = (.error e, ()) := by
  rw [hunks, if_neg (by simpa using hne), hh]
  rfl

theorem run_hunks_divide_error (hne : file.blocks ≠ []) {header : Option Header}
    (hh : file.header? = .ok header) {e : ParseError} (hd : run (divide file.blocks) () = (.error e, ())) :
    run file.hunks () = (.error e, ()) := by
  rw [hunks, if_neg (by simpa using hne), hh]
  exact (Action.run_bind_ok rfl).trans (Action.run_bind_error hd)

/-- A header only changes how much memory hunks are given. -/
theorem map_finished {α : Type} {f : Hunk → α} (header : Option Header) (hunks : List Hunk)
    (hf : ∀ hunk sizeLongs memFlags memAttr, f { hunk with sizeLongs, memFlags, memAttr } = f hunk) :
    ((header.map (allocate · hunks)).getD hunks).map f = hunks.map f := by
  cases header with
  | none => rfl
  | some header => exact Hunk.map_allocate header hunks hf

theorem flatMap_finished {α : Type} {f : Hunk → List α} (header : Option Header) (hunks : List Hunk)
    (hf : ∀ hunk sizeLongs memFlags memAttr, f { hunk with sizeLongs, memFlags, memAttr } = f hunk) :
    ((header.map (allocate · hunks)).getD hunks).flatMap f = hunks.flatMap f := by
  rw [List.flatMap_def, List.flatMap_def, map_finished header hunks hf]

/-- A header that was read has as many flags and attributes as sizes. -/
theorem exists_slot {header : Header} (hr : header.InRange) {i : Nat} (hi : i < header.sizes.length) :
    ∃ size memFlags memAttr, header.sizes[i]? = some size ∧
      (header.sizes.zip (header.memFlags.zip header.memAttrs))[i]? = some (size, memFlags, memAttr) := by
  obtain ⟨slots, -, -, hsizes, hflags, hattrs⟩ := hr.slots
  rw [hsizes, List.length_map] at hi
  refine ⟨slots[i].size, slots[i].memFlags, slots[i].memAttr.map Int.ofNat, ?_, ?_⟩
  · simp [hsizes, hi]
  · simp [hsizes, hflags, hattrs, hi]

/-- What stands in front of the blocks of a file, if it is a program. -/
structure HasHeader (file : File) (header : Header) : Prop where
  isProgram : file.isProgram
  first : ∃ frame rest, file.blocks = .plain frame (.header header) :: rest
  inRange : header.InRange

theorem HasHeader.length {header : Header} (hh : HasHeader file header) (h : Accepted file) :
    header.sizes.length = file.blocks.countP (·.kind.isSegment) := by
  obtain ⟨frame, rest, hfirst⟩ := hh.first
  obtain ⟨frame', header', rest', hfirst', hlength⟩ := h.header hh.isProgram
  cases hfirst.symm.trans hfirst'
  exact hlength

theorem Accepted.assembled (h : Accepted file) {header : Option Header} (hnone : header = none → ¬ file.isProgram)
    (hsome : ∀ h ∈ header, HasHeader file h) {found : List Hunk}
    (hfound : found = (parts file.blocks).map gathered) :
    Assembled file ((header.map (allocate · found)).getD found) := by
  have hgatherable := (Hunk.gatherable_parts_iff h.toDivisible).mpr h.single
  have hlength : found.length = file.blocks.countP (·.kind.isSegment) := by
    rw [hfound, List.length_map, Hunk.length_parts]
  refine ⟨?_, ?_, ?_, ?_, ?_, ?_⟩
  · have hmap := congrArg List.length (map_finished (f := fun _ ↦ ()) header found fun _ _ _ _ ↦ rfl)
    rw [List.length_map, List.length_map] at hmap
    exact hmap.trans hlength
  · intro front frame kind content behind hsplit
    have hmade : (gathered (Hunk.hunkBlocks front (.plain frame (.segment kind content)) behind)).MadeOf
        front kind content behind := (h.single front _ behind hsplit rfl).madeOf
    have hsize : (gathered (Hunk.hunkBlocks front (.plain frame (.segment kind content)) behind)).sizeLongs =
        content.sizeLongs := Hunk.sizeLongs_hunkBlocks
    have hget : found[front.countP (·.kind.isSegment)]? =
        some (gathered (Hunk.hunkBlocks front (.plain frame (.segment kind content)) behind)) := by
      rw [hfound, List.getElem?_map, Hunk.getElem?_parts hsplit, Option.map_some]
    cases header with
    | none => exact ⟨_, hget, hmade, fun _ ↦ hsize, fun hp ↦ absurd hp (hnone rfl)⟩
    | some header =>
      have hh := hsome header rfl
      obtain ⟨frame', rest, hfirst⟩ := hh.first
      have hlt : front.countP (·.kind.isSegment) < header.sizes.length := by
        rw [hh.length h, ← hlength]
        exact (List.getElem?_eq_some_iff.mp hget).1
      obtain ⟨size, memFlags, memAttr, hentry, hslot⟩ := exists_slot hh.inRange hlt
      have hallocated := Hunk.getElem?_allocate header found (front.countP (·.kind.isSegment))
      rw [hget, hslot] at hallocated
      -- the header gives the hunk another size and other flags, the rest is as it was gathered
      refine ⟨_, hallocated, ⟨hmade.segment, hmade.name, hmade.symbols, hmade.externals, hmade.relocs, hmade.debug⟩,
        fun hp ↦ absurd hh.isProgram hp, fun _ ↦ ⟨frame', header, rest, size, hfirst, hentry, ?_⟩⟩
      rw [← hsize, max_comm]
  · rw [flatMap_finished header found fun _ _ _ _ ↦ rfl, hfound]
    exact Hunk.flatMap_gathered h.toDivisible Block.symbols?_eq_none fun part hm ↦
      Hunk.toList_getLast? (hgatherable part hm).symbols
  · rw [flatMap_finished header found fun _ _ _ _ ↦ rfl, hfound]
    exact Hunk.flatMap_gathered h.toDivisible Block.externals?_eq_none fun part hm ↦
      Hunk.toList_getLast? (hgatherable part hm).externals
  · rw [flatMap_finished header found fun _ _ _ _ ↦ rfl, hfound]
    exact Hunk.flatMap_gathered h.toDivisible Block.relocs?_eq_none fun _ _ ↦ rfl
  · rw [flatMap_finished header found fun _ _ _ _ ↦ rfl, hfound]
    exact Hunk.flatMap_gathered h.toDivisible Block.debug?_eq_none fun _ _ ↦ rfl

theorem run_finish {header : Option Header} {found : Array Hunk}
    (h : ∀ header' ∈ header, header'.sizes.length = found.toList.length) :
    run (finish header found) () = (.ok ((header.map (allocate · found.toList)).getD found.toList), ()) := by
  cases header with
  | none => rfl
  | some header =>
    rw [finish]
    dsimp only
    rw [if_neg (not_not.mpr (h header rfl))]
    rfl

theorem run_finish_error {header : Header} {found : Array Hunk}
    (h : header.sizes.length ≠ found.toList.length) :
    run (finish (some header) found) () =
      (.error (.hunkCount found.toList.length header.sizes.length), ()) := by
  rw [finish]
  dsimp only
  rw [if_pos h]
  rfl

theorem hunks_settled_of_header (hne : file.blocks ≠ []) {header : Option Header}
    (hh : file.header? = .ok header) (hnone : header = none → ¬ file.isProgram)
    (hsome : ∀ h ∈ header, HasHeader file h) :
    (Accepted file ∧ ∃ hunks, run file.hunks () = (.ok hunks, ()) ∧ Assembled file hunks) ∨
      ¬ Accepted file ∧ ∃ e, run file.hunks () = (.error e, ()) := by
  obtain ⟨hd, hdivide⟩ | ⟨hn, e, hdivide⟩ := Hunk.divide_settled file.blocks
  · obtain ⟨hall, hgather⟩ | ⟨⟨part, hm, hn⟩, e, hgather⟩ :=
      Hunk.gatherAll_settled (fun part (hm : part ∈ parts file.blocks) ↦ Hunk.segment_of_parts hm) #[]
    · have hrun := (run_hunks hne hh hdivide).trans (Action.run_bind_ok hgather)
      have hlength : (#[] ++ ((parts file.blocks).map gathered).toArray).toList.length =
          file.blocks.countP (·.kind.isSegment) := by
        simpa using Hunk.length_parts file.blocks
      have hsingle := (Hunk.gatherable_parts_iff hd).mp hall
      by_cases hcount : ∀ h ∈ header, h.sizes.length = file.blocks.countP (·.kind.isSegment)
      · have haccepted : Accepted file := by
          refine ⟨hd, hsingle, fun hp ↦ ?_⟩
          obtain ⟨header', rfl⟩ := Option.ne_none_iff_exists'.mp fun hnil ↦ hnone hnil hp
          obtain ⟨frame, rest, hfirst⟩ := (hsome header' rfl).first
          exact ⟨frame, header', rest, hfirst, hcount header' rfl⟩
        refine Or.inl ⟨haccepted, _, hrun.trans (run_finish fun h hm ↦ (hcount h hm).trans hlength.symm), ?_⟩
        exact haccepted.assembled hnone hsome (by simp)
      · obtain ⟨header', hm, hne'⟩ : ∃ header', header = some header' ∧
            header'.sizes.length ≠ file.blocks.countP (·.kind.isSegment) := by
          by_contra hcontra
          exact hcount fun h hm ↦ by_contra fun hn ↦ hcontra ⟨h, hm, hn⟩
        subst hm
        exact Or.inr ⟨fun h ↦ hne' ((hsome header' rfl).length h), _,
          hrun.trans (run_finish_error (hlength.symm ▸ hne'))⟩
    · refine Or.inr ⟨fun h ↦ hn ?_, e, (run_hunks hne hh hdivide).trans (Action.run_bind_error hgather)⟩
      exact (Hunk.gatherable_parts_iff hd).mpr h.single part hm
  · exact Or.inr ⟨fun h ↦ hn h.toDivisible, e, run_hunks_divide_error hne hh hdivide⟩

/-- Blocks that were read make hunks exactly if they are accepted; each hunk then has what stands in it. -/
theorem hunks_settled {executable : Bool} (file : File) (hne : file.blocks ≠ [])
    (hb : ∀ block ∈ file.blocks, block.InRange executable) :
    (Accepted file ∧ ∃ hunks, run file.hunks () = (.ok hunks, ()) ∧ Assembled file hunks) ∨
      ¬ Accepted file ∧ ∃ e, run file.hunks () = (.error e, ()) := by
  obtain ⟨hnot, hh⟩ | ⟨hprogram, frame, header, rest, hfirst, hh⟩ | ⟨hprogram, hno, hh⟩ := header?_settled file
  · exact hunks_settled_of_header hne hh (fun _ ↦ hnot) nofun
  · refine hunks_settled_of_header hne hh nofun fun _ hm ↦ ?_
    obtain rfl := Option.some.inj hm
    have hrange := hb (.plain frame (.header header)) (hfirst ▸ List.mem_cons_self)
    obtain ⟨tag, -, -, hrange⟩ := hrange
    exact ⟨hprogram, ⟨frame, rest, hfirst⟩, hrange⟩
  · refine Or.inr ⟨fun h ↦ ?_, _, run_hunks_header_error hne hh⟩
    obtain ⟨frame, header, rest, hfirst, -⟩ := h.header hprogram
    exact hno frame header rest hfirst

/-- A program of a named code hunk with a relocation and a symbol, and of a BSS hunk with debug data. -/
def sampleBytes : Bytes :=
  ([0x3f3, 0, 2, 0, 1, 2, 1, 0x3e8, 1, 0x61626300, 0x3e9, 1, 0x4e754e75, 0x3ec, 1, 1, 0, 0, 0x3f0, 1, 0x78000000,
    4, 0, 0x3f2, 0x3eb, 1, 0x3f1, 1, 0x1020304].flatMap (Bytes.ofNat 4)).toArray

def sampleFile : File where
  blocks := (Block.decodeAll true (.ofBytes sampleBytes none) 0).result.toOption.getD []
  kind := .program

theorem hunks_settled_sample :
    sampleFile.blocks ≠ [] ∧ (∀ block ∈ sampleFile.blocks, block.InRange true) ∧ Accepted sampleFile ∧
      (∃ hunks, run sampleFile.hunks () = (.ok hunks, ()) ∧ Assembled sampleFile hunks) ∧
      (run sampleFile.hunks ()).1.map (List.map fun hunk ↦ (hunk.name, hunk.sizeLongs, hunk.debug.length)) =
        .ok [("abc", 2, 0), ("", 1, 1)] := by
  have hne : sampleFile.blocks ≠ [] := by decide +kernel
  have hread : (Block.decodeAll true (.ofBytes sampleBytes none) 0).result = .ok sampleFile.blocks := by rfl
  have hb : ∀ block ∈ sampleFile.blocks, block.InRange true := Block.inRange_of_decodeAll hread
  have hrun : (run sampleFile.hunks ()).1.map
      (List.map fun hunk ↦ (hunk.name, hunk.sizeLongs, hunk.debug.length)) =
        .ok [("abc", 2, 0), ("", 1, 1)] := by
    decide +kernel
  obtain ⟨haccepted, hhunks⟩ | ⟨-, e, he⟩ := hunks_settled sampleFile hne hb
  · exact ⟨hne, hb, haccepted, hhunks, hrun⟩
  · rw [he] at hrun
    cases hrun

end File

end Hunks
