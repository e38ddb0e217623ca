import Mathlib
import Hunks.Proofs.Block.Nesting
import Hunks.Proofs.Locality

namespace Hunks

open Decoder
open Hunks.Action (run)

namespace Header

theorem decodeSlot_local (hunk : Nat) : Local (decodeSlot hunk) := by
  refine Local.word.bind fun size ↦ .ite ?_ ?_
  · exact (Local.word.map some).bind fun attr ↦ (Local.debug _).bind fun _ ↦ .pure _
  · exact (Local.pure none).bind fun attr ↦ (Local.debug _).bind fun _ ↦ .pure _

theorem decodeLibrary?_local : Local decodeLibrary? := Local.name.bind fun _ ↦ .pure _

theorem decode_local : Local decode := by
  have hlibraries : Local (many decodeLibrary?) :=
    .many (decodeLibrary?_takes.mono (by decide)) decodeLibrary?_local
  refine hlibraries.bind fun libraries ↦ Local.word.bind fun tableSize ↦
    Local.word.bind fun firstHunk ↦ Local.word.bind fun lastHunk ↦ ?_
  have hslots : Local (times (lastHunk + 1 - firstHunk) fun i ↦ decodeSlot (firstHunk + i)) :=
    .times (fun i ↦ decodeSlot_local _) _
  refine .ite ((Local.fail _).bind fun _ ↦ ?_) ?_
  · exact (Local.debug _).bind fun _ ↦ (Local.debug _).bind fun _ ↦ hslots.bind fun _ ↦ .pure _
  · exact (Local.debug _).bind fun _ ↦ (Local.debug _).bind fun _ ↦ hslots.bind fun _ ↦ .pure _

end Header

namespace RelocGroup

theorem decode?_local (size : Nat) (text : Nat → Nat → String) : Local (decode? size text) := by
  refine (Local.number size).bind fun count ↦ .ite (.pure _) ?_
  exact (Local.number size).bind fun hunk ↦ (Local.numbers size count).bind fun offsets ↦
    (Local.debug _).bind fun _ ↦ .pure _

theorem decodeAll_local (kind : RelocKind) : Local (decodeAll kind) := by
  have hshort : Local (many decodeShort?) :=
    .many ((decode?_takes 2 _).mono (by decide)) (decode?_local 2 _)
  have hlong : Local (many decodeLong?) :=
    .many ((decode?_takes 4 _).mono (by decide)) (decode?_local 4 _)
  refine .ite (hshort.bind fun groups ↦ .ite ?_ (.pure _)) hlong
  exact Local.short.bind fun _ ↦ .pure _

end RelocGroup

namespace SymbolEntry

theorem decode?_local : Local decode? := by
  refine Local.name.bind fun symbol ↦ .ite (.pure _) ?_
  exact Local.word.bind fun value ↦ (Local.debug _).bind fun _ ↦ .pure _

end SymbolEntry

namespace External

theorem decodeTail_local (symbol : String) (kind : ExternalKind) (size : Option Nat) :
    Local (decodeTail symbol kind size) := by
  refine .ite ?_ ?_
  · exact Local.word.bind fun value ↦ (Local.debug _).bind fun _ ↦ .pure _
  · exact Local.word.bind fun count ↦ (Local.words count).bind fun offsets ↦
      (Local.debug _).bind fun _ ↦ .pure _

theorem decode?_local : Local decode? := by
  refine Local.word.bind fun head ↦ .ite (.pure _) ((Local.nameOfLongs _).bind fun symbol ↦ ?_)
  cases ExternalKind.ofNumber? (head / 0x1000000) with
  | none => exact .fail _
  | some kind =>
    refine .ite ?_ ?_
    · exact (Local.word.map some).bind fun size ↦ decodeTail_local symbol kind _
    · exact (Local.pure none).bind fun size ↦ decodeTail_local symbol kind _

end External

namespace Index

theorem decodeDefinition_local : Local IndexDefinition.decode :=
  Local.short.bind fun _ ↦ Local.short.bind fun _ ↦ Local.short.bind fun _ ↦ .pure _

theorem decodeHunk_local : Local IndexHunk.decode := by
  refine Local.short.bind fun nameOffset ↦ Local.short.bind fun longs ↦
    Local.short.bind fun memoryType ↦ Local.short.bind fun count ↦ (Local.shorts count).bind fun refs ↦
    Local.short.bind fun count' ↦ ?_
  exact (Local.times (fun _ ↦ decodeDefinition_local) count').bind fun _ ↦ .pure _

theorem decodeUnit_local : Local IndexUnit.decode := by
  refine Local.short.bind fun nameOffset ↦ Local.short.bind fun firstHunkOffset ↦
    Local.short.bind fun count ↦ ?_
  exact (Local.times (fun _ ↦ decodeHunk_local) count).bind fun _ ↦ .pure _

theorem decodeUnits_local (left : Int) : Local (decodeUnits left) := by
  have hunit : ∀ left, Local (decodeUnit? left) := fun left ↦
    .ite (.pure _) (decodeUnit_local.bind fun _ ↦ .pure _)
  refine (Local.manyWith (fun left ↦ (decodeUnit?_takes left).mono (by decide)) hunit left).bind ?_
  rintro ⟨units, rest⟩
  exact .ite (Local.short.bind fun _ ↦ .pure _) (.pure _)

theorem decode_local : Local decode := by
  refine Local.word.bind fun longs ↦ Local.short.bind fun size ↦ (Local.take size).bind fun strings ↦ ?_
  refine .ite ?_ ?_
  · exact (Local.take 1).bind fun _ ↦ (decodeUnits_local _).bind fun _ ↦ .pure _
  · exact (decodeUnits_local _).bind fun _ ↦ .pure _

end Index

namespace Body

theorem decodeName_local (what : String) : Local (decodeName what) :=
  Local.name.bind fun _ ↦ (Local.debug _).bind fun _ ↦ .pure _

theorem decodeDebug_local : Local decodeDebug :=
  Local.word.bind fun longs ↦ (Local.debug _).bind fun _ ↦ Local.longBytes longs

theorem decodeBytes_local : Local decodeBytes :=
  Local.word.bind fun longs ↦ Local.longBytes longs

end Body

/-! Places moved by a number of bytes. -/

def SegmentContent.move (d : Int) (content : SegmentContent) : SegmentContent :=
  { content with dataOffset := content.dataOffset.map (· + d) }

def Body.move (d : Int) : Body → Body
  | .segment kind content => .segment kind (content.move d)
  | body => body

def Frame.move (d : Int) (frame : Frame) : Frame :=
  ⟨frame.tag, frame.start.map (· + d), frame.stop.map (· + d)⟩

theorem SegmentContent.move_move (d e : Int) (content : SegmentContent) :
    (content.move d).move e = content.move (d + e) := by
  simp [move, Function.comp_def, Int.add_assoc]

theorem SegmentContent.move_zero (content : SegmentContent) : content.move 0 = content := by
  simp [move]

theorem Body.move_move (d e : Int) (body : Body) : (body.move d).move e = body.move (d + e) := by
  cases body with
  | segment kind content => simp [move, SegmentContent.move_move]
  | _ => rfl

theorem Body.move_zero (body : Body) : body.move 0 = body := by
  cases body with
  | segment kind content => simp [move, SegmentContent.move_zero]
  | _ => rfl

theorem Frame.move_move (d e : Int) (frame : Frame) : (frame.move d).move e = frame.move (d + e) := by
  simp [move, Function.comp_def, Int.add_assoc]

theorem Frame.move_zero (frame : Frame) : frame.move 0 = frame := by
  simp [move]

namespace Block

mutual

/-- The block from a place that lies a number of bytes further on, with all blocks in it. -/
def move (d : Int) : Block → Block
  | plain frame body => plain (frame.move d) (body.move d)
  | library frame blocks => library (frame.move d) (allMoved d blocks)

def allMoved (d : Int) : List Block → List Block
  | [] => []
  | block :: blocks => block.move d :: allMoved d blocks

end

theorem allMoved_eq (d : Int) (blocks : List Block) : allMoved d blocks = blocks.map (move d) := by
  induction blocks with
  | nil => rfl
  | cons block blocks ih => rw [allMoved, ih, List.map_cons]

mutual

theorem move_move (d e : Int) (block : Block) : (block.move d).move e = block.move (d + e) :=
  match block with
  | plain frame body => by rw [move, move, move, Frame.move_move, Body.move_move]
  | library frame blocks => by rw [move, move, move, Frame.move_move, allMoved_allMoved]

theorem allMoved_allMoved (d e : Int) (blocks : List Block) :
    allMoved e (allMoved d blocks) = allMoved (d + e) blocks :=
  match blocks with
  | [] => rfl
  | block :: blocks => by rw [allMoved, allMoved, allMoved, move_move, allMoved_allMoved]

end

mutual

theorem move_zero (block : Block) : block.move 0 = block :=
  match block with
  | plain frame body => by rw [move, Frame.move_zero, Body.move_zero]
  | library frame blocks => by rw [move, Frame.move_zero, allMoved_zero]

theorem allMoved_zero (blocks : List Block) : allMoved 0 blocks = blocks :=
  match blocks with
  | [] => rfl
  | block :: blocks => by rw [allMoved, move_zero, allMoved_zero]

end

theorem move_back (d : Int) (block : Block) : (block.move (-d)).move d = block := by
  rw [move_move, Int.add_left_neg, move_zero]

variable {executable : Bool} {part whole : Window} {shift : Nat}

theorem plain_follows {α : Type} {x : Decoder α} {back : α → α} {body : α → Body} {tag : Nat}
    {start : Int} (hx : Follows part whole shift x x back)
    (hb : ∀ a, body (back a) = (body a).move (-shift)) :
    Follows part whole shift (x >>= fun a ↦ decodeContent.plain tag (start - shift) a body)
      (x >>= fun a ↦ decodeContent.plain tag start a body) (move (-shift)) := by
  refine hx.bind fun a ↦ Follows.position.bind fun stop ↦ .pure ?_
  rw [move, hb]
  rfl

section Decode

variable (hp : part.PartOf whole shift)

include hp

theorem segment_follows (kind : SegmentKind) (tag : Nat) :
    Follows part whole shift (SegmentContent.decode kind tag) (SegmentContent.decode kind tag)
      (SegmentContent.move (-shift)) := by
  refine (Local.word _ _ _ hp).bind fun size ↦ (Follows.debug _ _).bind fun _ ↦
    .ite Iff.rfl (.pure rfl) ?_
  exact Follows.position.bind fun start ↦ (Local.longBytes _ _ _ _ hp).bind fun data ↦ .pure rfl

theorem local_follows {α : Type} {x : Decoder α} {body : α → Body} {tag : Nat} {start : Int}
    (hx : Local x) (hb : ∀ a, (body a).move (-shift) = body a) :
    Follows part whole shift (x >>= fun a ↦ decodeContent.plain tag (start - shift) a body)
      (x >>= fun a ↦ decodeContent.plain tag start a body) (move (-shift)) :=
  plain_follows (hx _ _ _ hp) fun a ↦ (hb a).symm

variable {x y : Int → Decoder (List Block)}
  (hn : ∀ stop, Follows part whole shift (x (stop - shift)) (y stop) (allMoved (-shift)))

include hn

theorem decodeContent_follows (tag : Nat) (start : Int) (kind : Kind) :
    Follows part whole shift (decodeContent x tag (start - shift) kind)
      (decodeContent y tag start kind) (move (-shift)) := by
  cases kind with
  | header => exact local_follows hp Header.decode_local fun _ ↦ rfl
  | unit => exact local_follows hp (Body.decodeName_local _) fun _ ↦ rfl
  | name => exact local_follows hp (Body.decodeName_local _) fun _ ↦ rfl
  | segment kind => exact plain_follows (segment_follows hp kind tag) fun _ ↦ rfl
  | relocs kind => exact local_follows hp (RelocGroup.decodeAll_local kind) fun _ ↦ rfl
  | symbols =>
    have hentries : Local (many SymbolEntry.decode?) :=
      .many (SymbolEntry.decode?_takes.mono (by decide)) SymbolEntry.decode?_local
    exact local_follows hp hentries fun _ ↦ rfl
  | externals =>
    have hentries : Local (many External.decode?) :=
      .many (External.decode?_takes.mono (by decide)) External.decode?_local
    exact local_follows hp hentries fun _ ↦ rfl
  | debug => exact local_follows hp Body.decodeDebug_local fun _ ↦ rfl
  | overlay => exact local_follows hp Body.decodeBytes_local fun _ ↦ rfl
  | continuation => exact local_follows hp Body.decodeBytes_local fun _ ↦ rfl
  | ending => exact Follows.position.bind fun stop ↦ .pure rfl
  | pause => exact Follows.position.bind fun stop ↦ .pure rfl
  | index => exact local_follows hp Index.decode_local fun _ ↦ rfl
  | library =>
    refine (Local.word _ _ _ hp).bind fun longs ↦ Follows.position.bind fun here ↦
      (Follows.info _ _).bind fun _ ↦ ?_
    have hstop : here - shift + (longs : Int) * 4 = here + longs * 4 - shift := by omega
    dsimp only [id]
    rw [hstop]
    refine (hn _).bind fun blocks ↦ Follows.position.bind fun stop ↦ .ite ?_ ?_ ?_
    · omega
    · exact (Follows.warn _ _).bind fun _ ↦ Follows.position.bind fun stop ↦ .pure rfl
    · exact Follows.position.bind fun stop ↦ .pure rfl

theorem decodeWith_follows :
    Follows part whole shift (decodeWith x executable) (decodeWith y executable)
      (move (-shift)) := by
  refine Follows.position.bind fun start ↦ (Local.word _ _ _ hp).bind fun tag ↦ ?_
  dsimp only [id]
  cases kindOfTag? executable tag with
  | none => exact .fail rfl
  | some kind =>
    have hcontent := decodeContent_follows hp hn tag start kind
    refine .ite Iff.rfl ?_ ?_
    · exact (Follows.debug _ _).bind fun _ ↦ (Follows.debug _ _).bind fun _ ↦ hcontent
    · exact (Follows.debug _ _).bind fun _ ↦ hcontent

end Decode

theorem next?_follows {x y : Decoder Block} {stop : Int}
    (h : Follows part whole shift x y (move (-shift))) :
    Follows part whole shift (next? (stop - shift) x) (next? stop y)
      (Option.map (move (-shift))) := by
  refine Follows.position.bind fun here ↦ .ite ?_ (.pure rfl) (h.bind fun block ↦ .pure rfl)
  omega

theorem decodeNested_follows (hp : part.PartOf whole shift) (depth : Nat) (stop : Int) :
    Follows part whole shift (decodeNested executable depth (stop - shift))
      (decodeNested executable depth stop) (allMoved (-shift)) := by
  induction depth generalizing stop with
  | zero => exact Follows.position.bind fun here ↦ .fail rfl
  | succ depth ih =>
    have hback : allMoved (-(shift : Int)) = List.map (move (-shift)) :=
      funext fun blocks ↦ allMoved_eq _ blocks
    have hblock : Follows part whole shift (decodeWith _ executable) _ _ := decodeWith_follows hp ih
    rw [hback]
    refine Follows.many ((decodeNested_takes depth _).mono (by decide))
      ((decodeNested_takes depth _).mono (by decide)) (next?_follows hblock)

theorem nested_follows (hp : part.PartOf whole shift) (stop : Int) :
    Follows part whole shift (nested executable (stop - shift)) (nested executable stop)
      (allMoved (-shift)) := by
  refine ⟨Follows.forward_of_spends (nested_spends stop), fun pos hpos ↦ ?_⟩
  have hdepth : (part.stop - pos).toNat / 8 <
      max ((part.stop - pos).toNat / 8) ((whole.stop - (pos + shift)).toNat / 8) + 1 :=
    Nat.lt_succ_of_le (le_max_left _ _)
  have hdepth' : (whole.stop - (pos + shift)).toNat / 8 <
      max ((part.stop - pos).toNat / 8) ((whole.stop - (pos + shift)).toNat / 8) + 1 :=
    Nat.lt_succ_of_le (le_max_right _ _)
  rw [nested_eq_decodeNested hdepth, nested_eq_decodeNested hdepth']
  exact (decodeNested_follows hp _ stop).run pos hpos

/-- A block of a part is the block of the whole, its places apart. -/
theorem block_follows (hp : part.PartOf whole shift) :
    Follows part whole shift (decodeWith (nested executable) executable)
      (decodeWith (nested executable) executable) (move (-shift)) :=
  decodeWith_follows hp (nested_follows hp)

end Block

end Hunks
