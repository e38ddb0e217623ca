import Mathlib
import Hunks.Proofs.Block.Lengths

namespace Hunks

open Decoder
open Hunks.Action (run)

namespace Body

/-- A body without the place of its data. -/
def unplaced : Body → Body
  | segment kind content => segment kind { content with dataOffset := none }
  | body => body

theorem unplaced_located (body : Body) (start : Nat) : (body.located start).unplaced = body.unplaced := by
  cases body <;> rfl

end Body

namespace Block

variable {executable : Bool} {data : Bytes} {blocks : List Block}

mutual

/-- A block with its kind, its tag and its content, but without its place. -/
def unplaced : Block → Block
  | plain frame body => plain ⟨frame.tag, none, none⟩ body.unplaced
  | library frame blocks => library ⟨frame.tag, none, none⟩ (allUnplaced blocks)

def allUnplaced : List Block → List Block
  | [] => []
  | block :: blocks => block.unplaced :: allUnplaced blocks

end

mutual

theorem unplaced_located (block : Block) (start : Nat) : (block.located start).unplaced = block.unplaced :=
  match block with
  | plain frame body => by rw [located, unplaced, unplaced, Body.unplaced_located]
  | library frame blocks => by rw [located, unplaced, unplaced, allUnplaced_allLocated]

theorem allUnplaced_allLocated (blocks : List Block) (start : Nat) :
    allUnplaced (allLocated start blocks) = allUnplaced blocks :=
  match blocks with
  | [] => rfl
  | block :: blocks => by
    rw [allLocated, allUnplaced, allUnplaced, unplaced_located, allUnplaced_allLocated]

end

theorem allSize_le_of_decodeAll (h : (decodeAll executable (.ofBytes data none) 0).result = .ok blocks) :
    allSize blocks ≤ data.size := by
  obtain ⟨n, hstate, hn, hsize⟩ := decodeAll_spends _ _ _ _ (Action.result_eq h)
  have hstop : (Window.ofBytes data none).stop = data.size := rfl
  omega

/-- What was read from a file of less than eight GiB can be written, and reads back with the same
tags and contents, if every symbol in it has a name. -/
theorem decodeAll_encodeAll_decodeAll (hsize : data.size < 2 ^ 33)
    (h : (decodeAll executable (.ofBytes data none) 0).result = .ok blocks) (hn : AllNamed blocks) :
    ∃ bytes blocks', (encodeAll #[] blocks ()).result = .ok bytes ∧
      (decodeAll executable (.ofBytes bytes none) 0).result = .ok blocks' ∧
      allUnplaced blocks' = allUnplaced blocks := by
  have hrange : AllInRange executable blocks := decodeAll_yields _ _ _ _ (Action.result_eq h)
  have hle := allSize_le_of_decodeAll h
  obtain ⟨hwritable, -⟩ := allWritable_of_named blocks hrange hn (by omega)
  have hread := decodeAll_written ⟨hrange, hwritable⟩
  exact ⟨_, _, encodeAll_written ⟨hrange, hwritable⟩, congrArg Prod.fst hread,
    allUnplaced_allLocated blocks 0⟩

/-- A unit with an external entry that starts with these bytes and has the value four. -/
def symbolUnit (head : List UInt8) : Bytes :=
  (Bytes.long 999 ++ Bytes.long 0 ++ Bytes.long 1001 ++ Bytes.long 1 ++ [0x4e, 0x75, 0x4e, 0x75] ++
    Bytes.long 1007 ++ head ++ Bytes.long 4 ++ Bytes.long 0 ++ Bytes.long 1010).toArray

def symbolBlocks (name : String) : List Block :=
  [plain ⟨some 999, some 0, some 8⟩ (.unit ""),
    plain ⟨some 1001, some 8, some 20⟩
      (.segment .code ⟨1, 0, some 16, some #[0x4e, 0x75, 0x4e, 0x75]⟩),
    plain ⟨some 1007, some 20, some 40⟩ (.externals [⟨name, .symbol, some 4, none, none⟩]),
    plain ⟨some 1010, some 40, some 44⟩ .ending]

theorem decodeAll_encodeAll_decodeAll_sample :
    ∃ bytes blocks', (encodeAll #[] (symbolBlocks "a") ()).result = .ok bytes ∧
      (decodeAll false (.ofBytes bytes none) 0).result = .ok blocks' ∧
      allUnplaced blocks' = allUnplaced (symbolBlocks "a") := by
  have h : (decodeAll false (.ofBytes (symbolUnit [0, 0, 0, 1, 0x61, 0, 0, 0]) none) 0).result =
      .ok (symbolBlocks "a") := rfl
  have hn : AllNamed (symbolBlocks "a") := by simp [symbolBlocks, AllNamed, Named, Body.Named]
  exact decodeAll_encodeAll_decodeAll (by decide) h hn

/-- A symbol with nothing but zeros for a name is read as an entry and written like the end of the
table, with its value behind it in the place of a tag. -/
theorem unnamed_symbol_lost :
    (decodeAll false (.ofBytes (symbolUnit [0, 0, 0, 1, 0, 0, 0, 0]) none) 0).result =
        .ok (symbolBlocks "") ∧
      (encodeAll #[] (symbolBlocks "") ()).result = .ok (symbolUnit [0, 0, 0, 0]) ∧
      (decodeAll false (.ofBytes (symbolUnit [0, 0, 0, 0]) none) 0).result =
        .error (.unknownBlock 4 4 28) :=
  ⟨rfl, rfl, rfl⟩

end Block

end Hunks
