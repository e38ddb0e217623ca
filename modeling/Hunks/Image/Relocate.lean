import Hunks.Image

namespace Hunks

inductive RelocationError where
  | addressCount (addresses segments : Nat)
  | unknownTarget (hunk : Nat) (target : Int)
  | outOfBounds (hunk : Nat) (offset : Int) (width : Width) (size : Nat)
  | reference (name : String) (hunk : Nat) (offset : Int)
  /-- An offset in front of the start of the segment. -/
  | beforeStart (hunk : Nat) (offset : Int)
  deriving DecidableEq, Repr

namespace RelocationError

def kind : RelocationError → ErrorKind
  | unknownTarget .. => .unknownTarget
  | _ => .relocOutOfBounds

def message : RelocationError → String
  | addressCount addresses segments => s!"got {addresses} addresses for {segments} segments"
  | unknownTarget hunk target =>
    s!"hunk #{hunk} contains relocations referencing unknown hunk #{target}"
  | outOfBounds hunk offset width size =>
    s!"relocation at offset 0x{Text.hex 1 offset} (width {width.bytes}) outside of hunk #{hunk} " ++
      s!"with {size} bytes"
  | reference name hunk offset =>
    s!"reference to {name} at offset 0x{Text.hex 1 offset} outside of hunk #{hunk}"
  | beforeStart hunk offset => s!"offset {offset} before the start of hunk #{hunk}"

end RelocationError

namespace Segment

/-- The value to write at a relocation, before it is cut to its width. -/
def patchValue (addresses : List Int) (id : Nat) (reloc : Relocation) : Int :=
  let value := addresses.getD reloc.target.toNat 0 + reloc.addend
  if reloc.pcRelative then value - (addresses.getD id 0 + reloc.offset) else value

/-- Replaces the displacement of a branch instruction and nothing else in it. -/
def setBranch (instruction : Nat) (value : Int) : Nat :=
  (instruction &&& (0xffffffff - branchMask)) ||| (Bytes.low32 value &&& branchMask)

def patch? (data : Bytes) (reloc : Relocation) (value : Int) : Option Bytes :=
  if reloc.kind = .relReloc26 then do
    let instruction ← Bytes.field? data reloc.offset 4
    Bytes.write? data reloc.offset reloc.width (setBranch instruction value : Nat)
  else
    Bytes.write? data reloc.offset reloc.width value

def applyReloc (addresses : List Int) (id : Nat) (segment : Segment) (data : Bytes)
    (reloc : Relocation) : Except RelocationError Bytes :=
  if segment.size < reloc.offset + reloc.width.bytes then
    .error (.outOfBounds id reloc.offset reloc.width segment.size)
  else
    match patch? data reloc (patchValue addresses id reloc) with
    | some data => .ok data
    | none => .error (.beforeStart id reloc.offset)

def unknownTarget? (segment : Segment) (count : Nat) : Option Int :=
  segment.targets.find? fun target ↦ target < 0 ∨ count ≤ target

/-- Patches the relocations in the order of their blocks, all of whose targets have to be known. -/
def relocate (addresses : List Int) (id : Nat) (segment : Segment) :
    Except RelocationError Bytes :=
  match segment.unknownTarget? addresses.length with
  | some target => .error (.unknownTarget id target)
  | none => segment.relocs.foldlM (segment.applyReloc addresses id) segment.content

end Segment

namespace Image

def sizes (image : Image) : List Nat :=
  image.segments.map Segment.size

def totalSize (image : Image) (padding : Int) : Int :=
  image.sizes.foldr (fun (size : Nat) total ↦ (size : Int) + padding + total) 0

def layoutFrom (padding : Int) (base : Int) : List Nat → List Int
  | [] => []
  | size :: sizes => base :: layoutFrom padding (base + size + padding) sizes

/-- Addresses of segments that lie one after the other. -/
def layout (image : Image) (base padding : Int) : List Int :=
  layoutFrom padding base image.sizes

/-- The segments as they read when each lies at its address. -/
def relocate (image : Image) (addresses : List Int) :
    Action Unit RelocationError (List Bytes) := do
  if image.segments.length ≠ addresses.length then
    throw (.addressCount addresses.length image.segments.length)
  let done ← Action.foldl (fun (done : Array Bytes) segment ↦ do
    let id := done.size
    let data ← Action.ofExcept (segment.relocate addresses id)
    if !segment.relocs.isEmpty then
      let address := Text.address (addresses.getD id 0)
      Action.debug s!"applied {segment.relocs.length} relocations to hunk #{id} at {address}"
    return done.push data) #[] image.segments
  return done.toList

/-- Each buffer is followed by padding, which cannot be negative. -/
def join? (padding : Int) (buffers : List Bytes) : Option Bytes :=
  if padding < 0 ∧ buffers ≠ [] then
    none
  else
    some (buffers.foldl (fun blob data ↦ blob ++ data ++ Bytes.zeros padding.toNat) #[])

def relocateAsOne (image : Image) (base padding : Int) :
    Action Unit RelocationError (Option Bytes) := do
  return join? padding (← image.relocate (image.layout base padding))

end Image

end Hunks
