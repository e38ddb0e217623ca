import Mathlib
import Hunks.Proofs.Block.RoundTrip
import Hunks.Proofs.Image
import Hunks.Proofs.Image.Varied

namespace Hunks

open Hunks.Action (run Kindred Parallel)

/-- The ways in which a program can store 32 bit relocations: with long words, with short words, and with
short words under the number of the data relocations. -/
inductive Spelling where
  | long
  | short
  | data
  deriving DecidableEq, Repr

namespace Spelling

def tag : Spelling → Nat
  | long => 1004
  | short => 1020
  | data => 1015

def kind : Spelling → RelocKind
  | long => .reloc32
  | short => .reloc32Short
  | data => .reloc32Short

/-- A block of relocations as it is stored. -/
def stored (spelling : Spelling) (groups : List RelocGroup) : Bytes :=
  (Bytes.long spelling.tag ++ RelocGroup.encodeAll spelling.kind groups).toArray

def block (spelling : Spelling) (groups : List RelocGroup) : Block :=
  .plain ⟨some (spelling.tag : Int), none, none⟩ (.relocs spelling.kind groups)

theorem isTag (spelling : Spelling) : Block.IsTag true (.relocs spelling.kind) spelling.tag := by
  cases spelling with
  | long => exact ⟨by decide, Or.inl ⟨rfl, by simp [kind]⟩⟩
  | short => exact ⟨by decide, Or.inl ⟨rfl, by simp [kind]⟩⟩
  | data => exact ⟨by decide, Or.inr ⟨rfl, rfl, rfl⟩⟩

variable {groups : List RelocGroup} (hg : ∀ group ∈ groups, group.InRange 2)
include hg

/-- What fits a short word fits the numbers of any block of relocations. -/
theorem inRange (spelling : Spelling) : ∀ group ∈ groups, group.InRange spelling.kind.numberBytes := by
  have hfits : ∀ n, Fits 2 n → Fits 4 n := fun n h ↦ ⟨h.1, h.2.trans_le (by decide)⟩
  cases spelling with
  | long =>
    intro group hm
    obtain ⟨hne, hcount, hhunk, hoffsets⟩ := hg group hm
    exact ⟨hne, hfits _ hcount, hfits _ hhunk, fun offset ho ↦ hfits _ (hoffsets offset ho)⟩
  | short => exact hg
  | data => exact hg

theorem wellFormed (spelling : Spelling) : Block.WellFormed true [spelling.block groups] :=
  ⟨⟨⟨spelling.tag, rfl, spelling.isTag, inRange hg spelling⟩, trivial⟩, trivial, trivial⟩

/-- However relocations are stored, they are read as one block. -/
theorem decodeAll_stored (spelling : Spelling) :
    (Block.decodeAll true (.ofBytes (spelling.stored groups) none) 0).result =
      .ok [(spelling.block groups).located 0] := by
  have hwritten : Block.allWritten [spelling.block groups] =
      Bytes.long spelling.tag ++ RelocGroup.encodeAll spelling.kind groups := by
    rw [Block.allWritten, List.flatMap_singleton, block, Block.written_eq (Block.run_encode_plain rfl rfl 0)]
  have hread := Block.decodeAll_written (wellFormed hg spelling)
  rw [hwritten] at hread
  exact congrArg Prod.fst hread

end Spelling

/-- One kind twice, or two kinds of 32 bit relocations that a program can store. -/
def RelocKind.Respelled (kind kind' : RelocKind) : Prop :=
  kind = kind' ∨ ∃ spelling spelling' : Spelling, kind = spelling.kind ∧ kind' = spelling'.kind

theorem leeway_respelled : Leeway Eq RelocKind.Respelled where
  name _ := rfl
  empty _ _ h := by rw [h]
  kind _ := Or.inl rfl
  width := by
    rintro kind _ (rfl | ⟨spelling, spelling', rfl, rfl⟩)
    · rfl
    · cases spelling <;> cases spelling' <;> rfl
  relative := by
    rintro kind _ (rfl | ⟨spelling, spelling', rfl, rfl⟩)
    · rfl
    · cases spelling <;> cases spelling' <;> rfl
  branch := by
    rintro kind _ (rfl | ⟨spelling, spelling', rfl, rfl⟩)
    · rfl
    · cases spelling <;> cases spelling' <;> simp [Spelling.kind]

/-- Two inputs that are the same but for the ways in which blocks of relocations are stored in them.
What stands between such blocks is a run of blocks that a program can have. -/
inductive Input.Respelled : Bytes → Bytes → Prop
  | same (rest : Bytes) : Respelled rest rest
  | blocks {front rest rest' : Bytes} {blocks : List Block} :
    (Block.decodeAll true (.ofBytes front none) 0).result = .ok blocks → Respelled rest rest' →
    Respelled (front ++ rest) (front ++ rest')
  | relocs (spelling spelling' : Spelling) {groups : List RelocGroup} {rest rest' : Bytes} :
    (∀ group ∈ groups, group.InRange 2) → Respelled rest rest' →
    Respelled (spelling.stored groups ++ rest) (spelling'.stored groups ++ rest')

namespace Block

variable {N : String → String → Prop} {K : RelocKind → RelocKind → Prop} {block block' : Block}
  {blocks blocks' : List Block}

theorem Varied.move (h : block.Varied N K block') (d e : Int) :
    (block.move d).Varied N K (block'.move e) := by
  cases h with
  | library frame frame' blocks blocks' => exact .library _ _ _ _
  | plain frame frame' hbody =>
    refine .plain _ _ ?_
    cases hbody with
    | name hname => exact .name hname
    | relocs groups hk => exact .relocs groups hk
    | segment kind content dataOffset => exact .segment kind (content.move d) _
    | same =>
      cases ‹Body› with
      | segment kind content => exact .segment kind (content.move d) _
      | _ => exact .same _

theorem allMoved_varied (h : List.Forall₂ (Varied N K) blocks blocks') (d e : Int) :
    List.Forall₂ (Varied N K) (allMoved d blocks) (allMoved e blocks') := by
  rw [allMoved_eq, allMoved_eq]
  exact List.rel_map (fun _ _ hb ↦ hb.move d e) h

theorem varied_refl (blocks : List Block) : List.Forall₂ (Varied N K) blocks blocks :=
  List.forall₂_same.mpr fun block _ ↦ by
    cases block with
    | plain frame body => exact .plain _ _ (.same body)
    | library frame blocks => exact .library _ _ _ _

end Block

namespace Input.Respelled

variable {data data' : Bytes}

theorem decodeAll (h : Input.Respelled data data') :
    Kindred ParseError.Alike (List.Forall₂ (Block.Varied Eq RelocKind.Respelled))
      (run (Block.decodeAll true (.ofBytes data none)) 0).1
      (run (Block.decodeAll true (.ofBytes data' none)) 0).1 := by
  have hmoved : ∀ {front front' : Bytes} {rest rest' : Bytes}, Kindred ParseError.Alike
      (List.Forall₂ (Block.Varied Eq RelocKind.Respelled))
        (run (Block.decodeAll true (.ofBytes rest none)) 0).1
        (run (Block.decodeAll true (.ofBytes rest' none)) 0).1 →
      Kindred ParseError.Alike (fun more more' ↦ List.Forall₂ (Block.Varied Eq RelocKind.Respelled)
          (Block.allMoved front.size more) (Block.allMoved front'.size more'))
        (run (Block.decodeAll true (.ofBytes rest none)) 0).1
        (run (Block.decodeAll true (.ofBytes rest' none)) 0).1 :=
    fun hr ↦ hr.mono (fun _ _ he ↦ he) fun _ _ hb ↦ Block.allMoved_varied hb _ _
  induction h with
  | same rest =>
    cases (run (Block.decodeAll true (.ofBytes rest none)) 0).1 with
    | error e => exact .error rfl
    | ok blocks => exact .ok (Block.varied_refl blocks)
  | blocks hf _ ih => exact Block.decodeAll_alike hf hf (Block.varied_refl _) (hmoved ih)
  | relocs spelling spelling' hg _ ih =>
    refine Block.decodeAll_alike (Spelling.decodeAll_stored hg spelling)
      (Spelling.decodeAll_stored hg spelling') (.cons ?_ .nil) (hmoved ih)
    exact .plain _ _ (.relocs _ (Or.inr ⟨spelling, spelling', rfl, rfl⟩))

/-- A program begins with the same block, however its relocations are stored. -/
theorem peekKind (h : Input.Respelled data data')
    (hk : (File.peekKind (.ofBytes data none) 0).result = .ok .program) :
    (File.peekKind (.ofBytes data' none) 0).result = .ok .program := by
  induction h with
  | same rest => exact hk
  | @blocks front rest rest' blocks hf _ ih =>
    cases blocks with
    | nil =>
      rw [Block.front_eq_nil hf] at hk ⊢
      simp only [Array.empty_append] at hk ⊢
      exact ih hk
    | cons block blocks =>
      obtain ⟨tag, _, hword, htag, -⟩ := Block.exists_tag hf rest
      obtain ⟨tag', _, hword', htag', -⟩ := Block.exists_tag hf rest'
      obtain rfl : tag = tag' := Int.ofNat.inj (Option.some.inj (htag.symm.trans htag'))
      rw [Block.peekKind_of_word hword] at hk
      rw [Block.peekKind_of_word hword', hk]
  | @relocs spelling spelling' groups rest rest' hg _ _ =>
    obtain ⟨tag, _, hword, htag, -⟩ := Block.exists_tag (Spelling.decodeAll_stored hg spelling) rest
    obtain rfl : spelling.tag = tag := Int.ofNat.inj (Option.some.inj htag)
    rw [Block.peekKind_of_word hword] at hk
    cases spelling <;> cases hk

/-- Such programs are files with the same blocks but for the kinds of relocations, or both are none. -/
theorem read (h : Input.Respelled data data')
    (hk : (File.peekKind (.ofBytes data none) 0).result = .ok .program) :
    Kindred ParseError.Alike (File.Varied Eq RelocKind.Respelled) (File.read data 0 none none).result
      (File.read data' 0 none none).result := by
  have hrun := congrArg Prod.fst (File.run_decode hk)
  have hrun' := congrArg Prod.fst (File.run_decode (h.peekKind hk))
  change Kindred _ _ (run (File.decode none (.ofBytes data none)) 0).1
    (run (File.decode none (.ofBytes data' none)) 0).1
  have hprogram : decide (FileKind.program = FileKind.program) = true := rfl
  rw [hrun, hrun', hprogram]
  have hblocks := h.decodeAll
  generalize (run (Block.decodeAll true (.ofBytes data none)) 0).1 = found at hblocks ⊢
  generalize (run (Block.decodeAll true (.ofBytes data' none)) 0).1 = found' at hblocks ⊢
  cases hblocks with
  | ok hb => exact .ok ⟨rfl, hb⟩
  | error he => exact .error he

end Input.Respelled

/-- Segments that are alike but for the kinds of their relocations and the place that they were read
from. -/
def Segment.Respelled (segment segment' : Segment) : Prop :=
  ∃ dataOffset relocs, segment' = { segment with dataOffset, relocs } ∧
    List.Forall₂ (fun reloc reloc' ↦ ∃ kind, reloc' = { reloc with kind }) segment.relocs relocs

namespace Image

/-- Images of such segments. -/
def Respelled (image image' : Image) : Prop :=
  image.kind = image'.kind ∧ List.Forall₂ Segment.Respelled image.segments image'.segments

theorem Varied.respelled {image image' : Image} (h : image.Varied Eq RelocKind.Respelled image') :
    image.Respelled image' := by
  refine ⟨h.1, h.2.imp fun segment _ hs ↦ ?_⟩
  obtain ⟨name, dataOffset, relocs, rfl, rfl, hrelocs⟩ := hs
  exact ⟨dataOffset, relocs, rfl, hrelocs.imp fun reloc reloc' hr ↦ ⟨_, hr.2⟩⟩

/-- The image that the bytes of a file give. -/
def read (data : Bytes) : Except ParseError Image :=
  (File.read data 0 none none).result.bind fun file ↦ (ofFile file ()).result

theorem read_eq_ok {data : Bytes} {image : Image} :
    read data = .ok image ↔ ∃ hunks, image.IsRead data hunks := by
  constructor
  · intro h
    rw [read] at h
    cases hread : (File.read data 0 none none).result with
    | error e =>
      rw [hread] at h
      cases h
    | ok file =>
      rw [hread] at h
      exact exists_isRead hread (Action.result_eq h)
  · rintro ⟨hunks, file, hread, -, hbuilt⟩
    rw [read, hread]
    exact hbuilt

/-- A program may store its relocations with long or with short words. It gives the same image but for the
kinds of the relocations, which reads the same at all addresses. -/
theorem read_respelled {data data' : Bytes} (h : Input.Respelled data data')
    (hk : (File.peekKind (.ofBytes data none) 0).result = .ok .program) :
    Kindred ParseError.Alike (fun image image' ↦ image.Respelled image' ∧
      ∀ addresses, image'.relocate addresses = image.relocate addresses) (read data) (read data') := by
  refine (h.read hk).bind fun file file' hf ↦ ?_
  have hend := ofFile_varied leeway_respelled hf () () rfl
  change Kindred _ _ (run (ofFile file) ()).1 (run (ofFile file') ()).1
  generalize run (ofFile file) () = p at hend ⊢
  generalize run (ofFile file') () = q at hend ⊢
  cases hend with
  | error he _ => exact .error he
  | ok hv _ => exact .ok ⟨hv.respelled, relocate_varied leeway_respelled hv⟩

/-- Code with an address of its own and one of the variable behind it. -/
def spelledGroups : List RelocGroup :=
  [⟨1, [0]⟩, ⟨0, [4]⟩]

/-- A program of this code and the variable. -/
def spelled (spelling : Spelling) : Bytes :=
  ([0x3f3, 0, 2, 0, 1, 2, 1, 0x3e9, 2, 0, 4].flatMap (Bytes.ofNat 4)).toArray ++
    (spelling.stored spelledGroups ++ ([0x3f2, 0x3eb, 1, 0x3f2].flatMap (Bytes.ofNat 4)).toArray)

theorem spelled_respelled (spelling spelling' : Spelling) :
    Input.Respelled (spelled spelling) (spelled spelling') := by
  have hgroups : ∀ group ∈ spelledGroups, group.InRange 2 := by
    intro group hm
    obtain rfl | rfl := by simpa [spelledGroups] using hm
    · exact ⟨by decide, ⟨by decide, by decide⟩, ⟨by decide, by decide⟩, by simp [Fits]⟩
    · exact ⟨by decide, ⟨by decide, by decide⟩, ⟨by decide, by decide⟩, by simp [Fits]⟩
  exact .blocks rfl (.relocs spelling spelling' hgroups (.same _))

def spelledImage : Image where
  kind := .program
  segments :=
    [.ofHunk .code ⟨2, 0, some 36, some #[0, 0, 0, 0, 0, 0, 0, 4]⟩
        { Hunk.empty with relocs := [(.reloc32, spelledGroups)], sizeLongs := 2 },
      .ofHunk .bss ⟨1, 0, none, none⟩ { Hunk.empty with sizeLongs := 1 }]

theorem read_respelled_spelled : read (spelled .long) = .ok spelledImage ∧
    (∃ image, read (spelled .short) = .ok image ∧ spelledImage.Respelled image ∧
      (image.relocate [0x1000, 0x2000] ()).result =
        .ok [#[0, 0, 0x20, 0, 0, 0, 0x10, 4], #[0, 0, 0, 0]]) ∧
    ∃ image, read (spelled .data) = .ok image ∧ spelledImage.Respelled image ∧
      (image.relocate [0x1000, 0x2000] ()).result =
        .ok [#[0, 0, 0x20, 0, 0, 0, 0x10, 4], #[0, 0, 0, 0]] := by
  have hread : read (spelled .long) = .ok spelledImage := rfl
  have hrelocate : (spelledImage.relocate [0x1000, 0x2000] ()).result =
      .ok [#[0, 0, 0x20, 0, 0, 0, 0x10, 4], #[0, 0, 0, 0]] := by cbv
  have hshort := read_respelled (spelled_respelled .long .short) rfl
  have hdata := read_respelled (spelled_respelled .long .data) rfl
  rw [hread] at hshort hdata
  generalize read (spelled .short) = short at hshort ⊢
  generalize read (spelled .data) = data at hdata ⊢
  cases hshort with
  | ok hs =>
    cases hdata with
    | ok hd =>
      refine ⟨hread, ⟨_, rfl, hs.1, ?_⟩, _, rfl, hd.1, ?_⟩
      · rw [hs.2, hrelocate]
      · rw [hd.2, hrelocate]

end Image

end Hunks
