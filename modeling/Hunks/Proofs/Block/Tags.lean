import Mathlib
import Hunks.Proofs.Block.IndexEnds
import Hunks.Proofs.Hunk.Divided

namespace Hunks

open Decoder
open Hunks.Action (run run_bind run_bind_ok run_bind_error)

namespace SegmentContent

theorem encode_ok {content : SegmentContent} {kind : SegmentKind} {tag : Nat} (h : content.InRange kind tag)
    (other : Int) : ∃ bytes, content.encode kind (some other) = .ok bytes := by
  by_cases hk : kind = .bss
  · subst hk
    exact ⟨_, rfl⟩
  · obtain ⟨data, hdata, -⟩ := h.stored hk
    exact ⟨_, by rw [encode, hdata]; exact (if_neg hk).trans rfl⟩

end SegmentContent

namespace External

/-- A symbol without a name is written as well, though it does not read back. -/
theorem encode_ok {entry : External} (h : entry.InRange) : ∃ bytes, entry.encode = .ok bytes := by
  obtain ⟨_, _, hsize, -, hpart, -⟩ := size_reads h
  obtain ⟨_, -, hentry, -⟩ := tail_reads h hsize hpart
  exact ⟨_, hentry⟩

end External

namespace Body

variable {body : Body}

/-- The content of a block that was read at some place of some file. -/
def Parsed (body : Body) : Prop :=
  ∃ (executable : Bool) (data : Bytes) (stop : Option Int) (start : Int) (blocks : List Block) (frame : Frame),
    (Block.decodeAll executable (.ofBytes data stop) start).result = .ok blocks ∧
      (frame, body) ∈ Block.allLeaves blocks

/-- Only segments share memory bits with their tags. -/
theorem encode_congr (h : ¬ body.kind.isSegment) (tag other : Option Int) :
    body.encode tag = body.encode other := by
  cases body with
  | segment kind content => exact absurd rfl h
  | _ => rfl

theorem encode_none_of_isSegment (h : body.kind.isSegment) : body.encode none = .error .missing := by
  cases body with
  | segment kind content => rfl
  | _ => cases h

/-- What fits its fields can be written behind any tag. -/
theorem InRange.encode_ok {tag : Nat} (h : body.InRange tag) (other : Int) :
    ∃ bytes, body.encode (some other) = .ok bytes := by
  cases body with
  | header header =>
    obtain ⟨bytes, hb, -⟩ := Header.undoes_encode h
    exact ⟨bytes, hb⟩
  | unit text =>
    obtain ⟨bytes, hb, -⟩ := undoes_name h
    exact ⟨bytes, hb⟩
  | name text =>
    obtain ⟨bytes, hb, -⟩ := undoes_name h
    exact ⟨bytes, hb⟩
  | segment kind content => exact SegmentContent.encode_ok h other
  | symbols entries =>
    obtain ⟨bytes, hb, -⟩ := concat_many fun entry hm ↦ SymbolEntry.undoes_encode (h entry hm)
    exact ⟨_, by rw [encode, hb]; rfl⟩
  | externals entries =>
    have hentries : ∀ entry ∈ entries, ∃ part, entry.encode = .ok part ∧ True := fun entry hm ↦
      (External.encode_ok (h entry hm)).imp fun _ he ↦ ⟨he, trivial⟩
    obtain ⟨parts, hb, -⟩ := concat_eq hentries
    exact ⟨_, by rw [encode, hb]; rfl⟩
  | index index =>
    obtain ⟨parts, hb, hparts⟩ := concat_eq fun unit hm ↦ IndexUnit.encode_reads (h.units unit hm)
    exact ⟨_, Index.encode_eq hparts h hb⟩
  | _ => exact ⟨_, rfl⟩

end Body

namespace Block

variable {executable : Bool} {blocks : List Block} {frame : Frame} {body : Body}

mutual

/-- A block with the number of its kind for a tag where it has none, and so with the blocks in it. -/
def tagged : Block → Block
  | plain frame body => plain { frame with tag := some (frame.tag.getD body.kind.number) } body
  | library frame blocks =>
    library { frame with tag := some (frame.tag.getD Kind.library.number) } (allTagged blocks)

def allTagged : List Block → List Block
  | [] => []
  | block :: blocks => block.tagged :: allTagged blocks

end

/-- Each segment among these has a tag. -/
def SegmentsTagged (leaves : List (Frame × Body)) : Prop :=
  ∀ leaf ∈ leaves, leaf.2.kind.isSegment → leaf.1.tag ≠ none

instance : DecidablePred SegmentsTagged := fun leaves ↦
  inferInstanceAs (Decidable (∀ leaf ∈ leaves, leaf.2.kind.isSegment → leaf.1.tag ≠ none))

mutual

theorem InRange.leaf (block : Block) (h : block.InRange executable) (hm : (frame, body) ∈ block.leaves) :
    ∃ tag, body.InRange tag :=
  match block with
  | plain _ _ => by
    cases List.mem_singleton.mp hm
    obtain ⟨tag, -, -, hbody⟩ := h
    exact ⟨tag, hbody⟩
  | library _ blocks => AllInRange.leaf blocks h.2 hm

theorem AllInRange.leaf (blocks : List Block) (h : AllInRange executable blocks)
    (hm : (frame, body) ∈ allLeaves blocks) : ∃ tag, body.InRange tag :=
  match blocks with
  | [] => absurd hm List.not_mem_nil
  | block :: blocks => by
    rcases List.mem_append.mp hm with hm | hm
    · exact InRange.leaf block h.1 hm
    · exact AllInRange.leaf blocks h.2 hm

end

/-- What was read can be written behind any tag. -/
theorem encode_ok_of_parsed (h : body.Parsed) (tag : Int) : ∃ bytes, body.encode (some tag) = .ok bytes := by
  obtain ⟨executable, data, stop, start, blocks, frame, hread, hleaf⟩ := h
  obtain ⟨_, hrange⟩ := AllInRange.leaf blocks (decodeAll_yields _ _ _ _ (Action.result_eq hread)) hleaf
  exact hrange.encode_ok tag

mutual

theorem run_encode_tagged (block : Block) (h : ∀ leaf ∈ block.leaves, leaf.2.Parsed) (offset : Nat) :
    ∃ bytes, run (encode offset block.tagged) () = (.ok bytes, ()) :=
  match block with
  | plain frame body => by
    obtain ⟨bytes, hb⟩ := encode_ok_of_parsed (h _ List.mem_cons_self) (frame.tag.getD body.kind.number)
    exact ⟨_, by rw [tagged, encode, run_bind, Action.run_debug, hb]; rfl⟩
  | library frame blocks => by
    obtain ⟨bytes, hb⟩ := run_encodeAll_tagged blocks h #[]
    rw [tagged, encode, run_bind, Action.run_debug]
    exact ⟨_, run_bind_ok hb⟩

theorem run_encodeAll_tagged (blocks : List Block) (h : ∀ leaf ∈ allLeaves blocks, leaf.2.Parsed)
    (written : Bytes) :
    ∃ bytes, run (encodeAll written (allTagged blocks)) () = (.ok bytes, ()) :=
  match blocks with
  | [] => ⟨written, rfl⟩
  | block :: blocks => by
    obtain ⟨hblock, hblocks⟩ := List.forall_mem_append.mp h
    obtain ⟨bytes, hb⟩ := run_encode_tagged block hblock written.size
    obtain ⟨all, hall⟩ := run_encodeAll_tagged blocks hblocks (written ++ bytes)
    exact ⟨all, by rw [allTagged, encodeAll, run_bind_ok hb, hall]⟩

end

mutual

/-- Where the segments have their tags, the other blocks need none, whatever their content is. -/
theorem encode_tagged (block : Block) (h : SegmentsTagged block.leaves) (offset : Nat) :
    encode offset block.tagged = encode offset block :=
  match block with
  | plain frame body => by
    have hbody : body.encode (some (frame.tag.getD body.kind.number)) = body.encode frame.tag := by
      cases htag : frame.tag with
      | some tag => rfl
      | none => exact Body.encode_congr (fun hsegment ↦ h _ List.mem_cons_self hsegment htag) _ _
    rw [tagged, encode, encode, hbody]
    rfl
  | library frame blocks => by
    rw [tagged, encode, encode, encodeAll_tagged blocks h]
    rfl

theorem encodeAll_tagged (blocks : List Block) (h : SegmentsTagged (allLeaves blocks)) (written : Bytes) :
    encodeAll written (allTagged blocks) = encodeAll written blocks :=
  match blocks with
  | [] => rfl
  | block :: blocks => by
    obtain ⟨hblock, hblocks⟩ := List.forall_mem_append.mp h
    rw [allTagged, encodeAll, encodeAll, encode_tagged block hblock]
    simp only [encodeAll_tagged blocks hblocks]

end

mutual

theorem run_encode_missing (block : Block) (hp : ∀ leaf ∈ block.leaves, leaf.2.Parsed)
    (h : ¬ SegmentsTagged block.leaves) (offset : Nat) : run (encode offset block) () = (.error .missing, ()) :=
  match block with
  | plain frame body => by
    simp only [SegmentsTagged, leaves, List.forall_mem_singleton, not_forall, not_not] at h
    obtain ⟨hsegment, htag⟩ := h
    rw [encode, run_bind, Action.run_debug, htag, Body.encode_none_of_isSegment hsegment]
    rfl
  | library frame blocks => by
    rw [encode, run_bind, Action.run_debug]
    exact run_bind_error (run_encodeAll_missing blocks hp h #[])

/-- The first segment without a tag ends the writing, as nothing fails in front of it. -/
theorem run_encodeAll_missing (blocks : List Block) (hp : ∀ leaf ∈ allLeaves blocks, leaf.2.Parsed)
    (h : ¬ SegmentsTagged (allLeaves blocks)) (written : Bytes) :
    run (encodeAll written blocks) () = (.error .missing, ()) :=
  match blocks with
  | [] => absurd (List.forall_mem_nil _) h
  | block :: blocks => by
    obtain ⟨hblock, hblocks⟩ := List.forall_mem_append.mp hp
    rw [encodeAll]
    by_cases htagged : SegmentsTagged block.leaves
    · obtain ⟨bytes, hb⟩ := run_encode_tagged block hblock written.size
      rw [encode_tagged block htagged] at hb
      rw [run_bind_ok hb]
      have hrest : ¬ SegmentsTagged (allLeaves blocks) :=
        fun hrest ↦ h (List.forall_mem_append.mpr ⟨htagged, hrest⟩)
      exact run_encodeAll_missing blocks hblocks hrest _
    · exact run_bind_error (run_encode_missing block hblock htagged _)

end

/-- Blocks without tags are written like those with the numbers of their kinds, however deep they lie, with
one exception: a segment without a tag is refused. -/
theorem encodeAll_allTagged (h : ∀ leaf ∈ allLeaves blocks, leaf.2.Parsed) (written : Bytes) :
    (∃ bytes, (encodeAll written (allTagged blocks) ()).result = .ok bytes) ∧
      (SegmentsTagged (allLeaves blocks) →
        encodeAll written blocks = encodeAll written (allTagged blocks)) ∧
      (¬ SegmentsTagged (allLeaves blocks) →
        (encodeAll written blocks ()).result = .error .missing) := by
  obtain ⟨bytes, hb⟩ := run_encodeAll_tagged blocks h written
  exact ⟨⟨bytes, congrArg Prod.fst hb⟩, fun ht ↦ (encodeAll_tagged blocks ht written).symm,
    fun ht ↦ congrArg Prod.fst (run_encodeAll_missing blocks h ht written)⟩

/-- A library with a named piece of code for chip memory, of which the segment alone may have a tag. -/
def sampleLibrary (tag : Option Int) : List Block :=
  [library ⟨none, none, none⟩ [plain ⟨none, none, none⟩ (.name "x"),
    plain ⟨tag, none, none⟩ (.segment .code ⟨1, 0x40000000, some 28, some #[0x4e, 0x75, 0x4e, 0x75]⟩),
    plain ⟨none, none, none⟩ .ending]]

def sampleBytes (tag size : Int) : Bytes :=
  (Bytes.long 1018 ++ Bytes.long 7 ++ Bytes.long 1000 ++ Bytes.long 1 ++ [0x78, 0, 0, 0] ++
    Bytes.long tag ++ Bytes.long size ++ [0x4e, 0x75, 0x4e, 0x75] ++ Bytes.long 1010).toArray

/-- The library as it reads from a file with the memory bit in the tag of the segment. -/
def sampleRead : List Block :=
  [library ⟨some 1018, some 0, some 36⟩ [plain ⟨some 1000, some 8, some 20⟩ (.name "x"),
    plain ⟨some 0x400003e9, some 20, some 32⟩
      (.segment .code ⟨1, 0x40000000, some 28, some #[0x4e, 0x75, 0x4e, 0x75]⟩),
    plain ⟨some 1010, some 32, some 36⟩ .ending]]

theorem parsed_sampleLibrary (tag : Option Int) : ∀ leaf ∈ allLeaves (sampleLibrary tag), leaf.2.Parsed := by
  have hread : (decodeAll false (.ofBytes (sampleBytes 0x400003e9 1) none) 0).result = .ok sampleRead := rfl
  have hparsed : ∀ body ∈ (allLeaves sampleRead).map Prod.snd, body.Parsed :=
    List.forall_mem_map.mpr fun leaf hm ↦ ⟨_, _, _, _, _, leaf.1, hread, hm⟩
  have hsame : (allLeaves sampleRead).map Prod.snd = (allLeaves (sampleLibrary tag)).map Prod.snd := rfl
  rw [hsame] at hparsed
  exact List.forall_mem_map.mp hparsed

theorem encodeAll_allTagged_sample :
    (∀ leaf ∈ allLeaves (sampleLibrary (some 0x400003e9)), leaf.2.Parsed) ∧
      encodeAll #[] (sampleLibrary (some 0x400003e9)) =
        encodeAll #[] (allTagged (sampleLibrary (some 0x400003e9))) ∧
      (encodeAll #[] (sampleLibrary none) ()).result = .error .missing := by
  obtain ⟨-, hsame, -⟩ := encodeAll_allTagged (parsed_sampleLibrary (some 0x400003e9)) #[]
  obtain ⟨-, -, hrefused⟩ := encodeAll_allTagged (parsed_sampleLibrary none) #[]
  exact ⟨parsed_sampleLibrary _, hsame (by decide), hrefused (by decide)⟩

/-- With the number of its kind for a tag the segment is written, and all that lies around it needs none. -/
theorem untagged_segment_refused :
    (∀ leaf ∈ allLeaves (sampleLibrary none), leaf.2.Parsed) ∧
      (encodeAll #[] (sampleLibrary (some 1001)) ()).result = .ok (sampleBytes 1001 0x40000001) ∧
      (encodeAll #[] (sampleLibrary none) ()).result = .error .missing :=
  ⟨parsed_sampleLibrary none, rfl, rfl⟩

end Block

end Hunks
