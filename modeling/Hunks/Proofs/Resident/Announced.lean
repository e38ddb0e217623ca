import Mathlib
import Hunks.Proofs.Decides
import Hunks.Proofs.Memory.Cells
import Hunks.Proofs.Memory.Find
import Hunks.Proofs.Resident.Rounds

namespace Hunks

open Hunks.Action (run Confined Decides Rounds Shared)

namespace Memory

variable {memory : Memory} {address : Int} {bytes : Bytes} {size : Nat}

/-- Regions that were created one after another, none of them with more content than its size. -/
inductive Laid : Memory → Prop
  | empty : Laid []
  | create {before memory : Memory} {plan : Region.Plan} {region : Region} : Laid before →
      plan.Fits → before.create plan = .ok (region, memory) → Laid memory

theorem Laid.sound (h : memory.Laid) : memory.Sound := by
  induction h with
  | empty => exact sound_nil
  | create _ hfits hcreate ih => exact (create_eq_ok hcreate).sound_of_fits hfits ih

/-- The bytes at an address, if all of them can be read. -/
def bytes? (memory : Memory) (address : Int) (size : Nat) : Option Bytes :=
  match memory.read address size with
  | .ok bytes => some bytes
  | .error _ => none

theorem bytes?_eq_some {bytes : Bytes} :
    memory.bytes? address size = some bytes ↔ memory.read address size = .ok bytes := by
  rw [bytes?]
  split <;> rename_i h <;> simp [h]

/-- The number that some bytes at an address are, if they can be read. -/
def number? (memory : Memory) (address : Int) (size : Nat) : Option Nat :=
  (memory.bytes? address size).map fun bytes ↦ Bytes.toNat bytes.toList

/-- A name at an address can be read up to its end, or up to a length that cuts it off. -/
def HasName (memory : Memory) : Nat → Int → Prop
  | 0, _ => True
  | n + 1, address => ∃ b, memory.number? address 1 = some b ∧
      (b = 0 ∨ b = 0x0d ∨ b = 0x0a ∨ HasName memory n (address + 1))

/-- A number among bytes that were read is the one at its address. -/
theorem Sound.number?_of_bytes? (hs : memory.Sound) (h : memory.bytes? address size = some bytes)
    (start width : Nat) (hw : 0 < width) (hle : start + width ≤ size) :
    memory.number? (address + start) width =
      some (Bytes.toNat (bytes.extract start (start + width)).toList) := by
  have hread := bytes?_eq_some.mp h
  obtain ⟨region, hr, hd, hl, hu⟩ := readable_of_read hread
  obtain ⟨data, hdata⟩ := Option.ne_none_iff_exists'.mp hd
  rw [hs.read_of_mem hr hdata hl hu (by omega), Except.ok.injEq] at hread
  have hpart : memory.read (address + start) width = _ :=
    hs.read_of_mem hr hdata (by omega) (by omega) (by omega)
  rw [number?, bytes?_eq_some.mpr hpart, ← hread, Option.map_some, Array.extract_extract]
  congr 4 <;> omega

end Memory

namespace Host

/-- A host that does not fail by itself and has a memory. -/
def Steady (memory : Memory) (host : Host) : Prop :=
  host.Reliable ∧ host.program.memory = memory

theorem steady_lasting (memory : Memory) : Lasting (Steady memory) :=
  reliable_stable.lasting.and (memory_lasting memory)

end Host

namespace Resident

variable {ρ α : Type} {memory : Memory} {sources : Sources ρ} {scanner : Scanner ρ} {address : Int}

/-- A table for automatic initialization can be read, and the start of the functions it leads to. -/
@[mk_iff]
structure HasTable (memory : Memory) (address : Int) : Prop where
  whole : ∃ bytes, memory.bytes? address tableSize = some bytes
  functions : ∃ functions, memory.number? (address + 4) 4 = some functions ∧
    ∃ word, memory.number? functions 2 = some word

/-- The structure at an address can be read, with all that it leads to and a module cannot do without. -/
@[mk_iff]
structure Decodable (memory : Memory) (address : Int) : Prop where
  whole : ∃ bytes, memory.bytes? address structSize = some bytes
  name : ∃ name, memory.number? (address + 14) 4 = some name ∧ memory.HasName maxNameLength name
  idString : ∃ id, memory.number? (address + 18) 4 = some id ∧
    (id ≠ 0 → memory.contains id → memory.HasName maxNameLength id)
  table : ∃ flags, memory.number? (address + 10) 1 = some flags ∧ (flags &&& autoInit ≠ 0 →
    ∃ init, memory.number? (address + 22) 4 = some init ∧ HasTable memory init)

/-- A module stands at an address: the word that announces one, with its own address behind it, and
all that is needed to decode it. -/
structure Announced (memory : Memory) (address : Int) : Prop where
  matchWord : memory.Holds address matchWord
  tag : ∃ tag, memory.number? (address + 2) 4 = some tag ∧ (tag : Int) = address
  decodable : Decodable memory address

/-- The errors of a resolver are ones that a scan only mentions. -/
def Sources.Mild (sources : Sources ρ) : Prop :=
  ∀ resolver ∈ sources.resolver, ∀ library lookups e,
    (run (resolver library) lookups).1 = .error e → e.isMild

def ScanError.OfHost : ScanError → Prop
  | .host _ => True
  | .resolve _ => False

namespace Scanner

variable {P : Host → Prop}

/-- A computation that fails in no state of a host with a property. -/
abbrev Never (P : Host → Prop) (x : Scan ρ α) : Prop :=
  x.Confined (Has P) fun _ ↦ False

theorem annotate_never {operation : Operation} {x : Host.Access α} (hx : x.Preserves P) (address : Int) :
    Never P (annotate (ρ := ρ) operation address x) := by
  refine Action.Preserves.confined_of_ok (fun scanner hs ↦ ?_) fun scanner _ ↦ ⟨(), ?_⟩
  · rw [run_annotate]
    exact hx _ hs
  · rw [run_annotate]

section Chain

variable (hP : Host.Lasting P)
include hP

theorem markData_never (address : Int) (type : DataType) : Never P (markData (ρ := ρ) address type) :=
  annotate_never (Host.createData_preserves hP.frame _ _) _

theorem markLabel_never (address : Int) (name : String) : Never P (markLabel (ρ := ρ) address name) :=
  annotate_never (Host.createLabel_preserves hP _ _ _) _

theorem declare_never (address : Int) (name : String) (parameters : List Parameter) :
    Never P (declare (ρ := ρ) address name parameters) :=
  have hlabel := Host.createLabel_preserves hP address name Label.imported
  .bind (annotate_never (Host.declareFunction_preserves hP.frame hlabel _) _) fun _ ↦
    annotate_never (Host.addEntryPoint_preserves hP.frame _) _

theorem markSlot_never (types : Option Catalog) (relative : Bool) (slot target : Int) :
    Never P (markSlot (ρ := ρ) types relative slot target) := by
  rw [markSlot]
  split
  · exact .bind (markData_never hP _ _) fun _ ↦ annotate_never (Host.addReference_preserves hP.frame _ _) _
  · exact markData_never hP _ _

end Chain

theorem ask_never {resolver : Resolver ρ} (hm : sources.Mild) (hr : sources.resolver = some resolver)
    (library : String) : Never P (ask resolver library) := by
  refine .bind_of_run (Action.Preserves.confined_of_ok (fun _ hs ↦ hs) fun _ _ ↦ ⟨_, rfl⟩) fun s answer t _ hrun ↦ ?_
  split
  · rename_i e
    have he : (run (resolver library) s.lookups).1 = .error e := Except.ok.inj (congrArg Prod.fst hrun)
    rw [if_pos (hm resolver hr library _ e he)]
    exact .bind (.report _ _) fun _ ↦ .pure _
  · exact .pure _
  · exact .bind (.modify fun _ hs ↦ hs) fun _ ↦ .pure _

theorem requestDescriptor_never (hm : sources.Mild) (library : String) :
    Never P (requestDescriptor sources library) := by
  rw [requestDescriptor]
  split <;> rename_i hr
  · exact .pure _
  · refine .bind .get fun _ ↦ ?_
    split
    · exact .pure _
    · exact .bind (.modify fun _ hs ↦ hs) fun _ ↦ ask_never hm hr _

theorem descriptorFor_never (hm : sources.Mild) (library : String) (table : Int) (i : Nat)
    (known : Option Descriptor) : Never P (descriptorFor sources library table i known) := by
  rw [descriptorFor]
  split
  · exact .pure _
  · refine .bind (requestDescriptor_never hm _) fun found ↦ ?_
    split
    · exact .bind (.modify fun _ hs ↦ hs) fun _ ↦ .bind (.report _ _) fun _ ↦ .pure _
    · exact .pure _

theorem decodeVector_never (hP : Host.Lasting P) (hm : sources.Mild) (library : String) (relative : Bool)
    (table : Int) (found : Option Descriptor × Array Vector) (slot target : Int) :
    Never P (decodeVector sources library relative table found slot target) := by
  refine .bind (descriptorFor_never hm _ _ _ _) fun descriptor ↦ ?_
  refine .bind (markSlot_never hP _ _ _ _) fun _ ↦ .bind (.report _ _) fun _ ↦ ?_
  exact .bind (declare_never hP _ _ _) fun _ ↦ .pure _

/-- What a scan asks a host about its memory leaves everything as it is. -/
theorem run_onHost (hr : scanner.host.Reliable) (operation asked : Operation) (address : Int)
    (f : Memory → Except AccessError α) :
    run (onHost operation address (Host.ask asked fun program ↦ f program.memory)) scanner =
      ((f scanner.memory).mapError fun e ↦ .host ⟨operation, some address, e⟩, scanner) := by
  rw [onHost, Action.run_focus, Action.run_mapError, Host.call, Action.run_mapError, Host.run_ask hr]
  show (((f scanner.memory).mapError _).mapError _, scanner) = _
  cases f scanner.memory <;> rfl

theorem onHost_decides (operation asked : Operation) (address : Int)
    (f : Memory → Except AccessError α) :
    (onHost (ρ := ρ) operation address (Host.ask asked fun program ↦ f program.memory)).Decides
      (Has (Host.Steady memory)) ScanError.OfHost (∃ a, f memory = .ok a) (f memory = .ok ·) := by
  rintro scanner ⟨hr, rfl⟩
  rw [run_onHost hr, memory]
  cases hf : f scanner.host.program.memory with
  | ok a => exact .ok ⟨a, rfl⟩ rfl ⟨hr, rfl⟩
  | error e => exact .error (fun ⟨_, h⟩ ↦ nomatch h) trivial ⟨hr, rfl⟩

theorem onHost_bind_decides {β : Type} {E : ScanError → Prop} {d : Prop} {Q : β → Prop}
    (operation asked : Operation) (address : Int) (f : Memory → α) {g : α → Scan ρ β}
    (hg : (g (f memory)).Decides (Has (Host.Steady memory)) E d Q) :
    (onHost (ρ := ρ) operation address (Host.ask asked fun program ↦ .ok (f program.memory)) >>= g).Decides
      (Has (Host.Steady memory)) E d Q := by
  rintro scanner ⟨hr, rfl⟩
  rw [Action.run_bind_ok (run_onHost hr operation asked address fun memory ↦ .ok (f memory))]
  exact hg scanner ⟨hr, rfl⟩

theorem run_contains (hr : scanner.host.Reliable) (address : Int) :
    run (contains address) scanner = (.ok (scanner.memory.contains address), scanner) :=
  run_onHost hr .contains .contains address fun memory ↦ .ok (memory.contains address)

theorem contains_never (address : Int) : Never (Host.Steady memory) (contains (ρ := ρ) address) := by
  refine Action.Preserves.confined_of_ok (fun scanner hs ↦ ?_) fun scanner hs ↦
    ⟨scanner.memory.contains address, ?_⟩
  · rwa [run_contains hs.1]
  · rw [run_contains hs.1]

theorem read_decides (address : Int) (size : Nat) :
    (read (ρ := ρ) address size).Decides (Has (Host.Steady memory)) ScanError.OfHost
      (∃ bytes, memory.bytes? address size = some bytes)
      (fun bytes ↦ memory.bytes? address size = some bytes.toArray) := by
  simp only [Memory.bytes?_eq_some]
  exact .bind_true (onHost_decides .readBytes .readBytes address (·.read address size))
    fun _ bytes h ↦ .pure h

theorem readNumber_decides (size : Nat) (address : Int) :
    (readNumber (ρ := ρ) size address).Decides (Has (Host.Steady memory)) ScanError.OfHost
      (∃ n, memory.number? address size = some n) (memory.number? address size = some ·) := by
  refine .of_iff (.bind_true (read_decides address size) fun _ bytes h ↦ .pure ?_) ?_
  · rw [Memory.number?, h]
    rfl
  · simp [Memory.number?]

/-- The next byte of a name, or its end. -/
def nameStep (address : Int) (name : List UInt8) : Scan ρ (List UInt8 ⊕ List UInt8) := do
  let b ← readNumber 1 (address + name.length)
  return if b = 0 ∨ b = 0x0d ∨ b = 0x0a then .inr name else .inl (b.toUInt8 :: name)

theorem run_nameLoop (address : Int) (n : Nat) (name : List UInt8) (scanner : Scanner ρ) :
    run (Action.repeatUpTo (n + 1) (nameStep address) name) scanner =
      run (readNumber 1 (address + name.length) >>= fun b ↦
        if b = 0 ∨ b = 0x0d ∨ b = 0x0a then pure (.inr name)
        else Action.repeatUpTo n (nameStep address) (b.toUInt8 :: name)) scanner := by
  rw [Action.run_repeatUpTo_succ, nameStep, Action.run_bind, Action.run_bind, Action.run_bind]
  rcases run (readNumber 1 (address + name.length)) scanner with ⟨_ | b, _⟩
  · rfl
  · dsimp only
    rw [Action.run_pure]
    split_ifs <;> rfl

theorem nameLoop_decides (address : Int) (n : Nat) (name : List UInt8) :
    (Action.repeatUpTo n (nameStep (ρ := ρ) address) name).Decides (Has (Host.Steady memory))
      ScanError.OfHost (memory.HasName n (address + name.length)) fun _ ↦ True := by
  induction n generalizing name with
  | zero => exact .pure trivial
  | succ n ih =>
    refine .of_run_eq (.bind_unique (readNumber_decides 1 _) ?_ fun b _ ↦ ?_) (run_nameLoop address n name)
    · exact fun _ _ h h' ↦ Option.some.inj (h.symm.trans h')
    · split_ifs with hend
      · exact (Decides.pure trivial).of_iff (iff_of_true trivial (by tauto))
      · refine (ih (b.toUInt8 :: name)).of_iff ?_
        rw [List.length_cons, Nat.cast_succ, ← add_assoc]
        tauto

theorem readName_decides (address : Int) :
    (readName (ρ := ρ) address).Decides (Has (Host.Steady memory)) ScanError.OfHost
      (memory.HasName maxNameLength address) fun _ ↦ True := by
  refine .of_iff (.bind_true (nameLoop_decides address maxNameLength []) fun _ found _ ↦ ?_) ?_
  · cases found <;> exact .pure trivial
  · simp

theorem walkStep_never (found : Int × Array InitData.Command) :
    Never (Host.Steady memory) (walkStep (ρ := ρ) found) := by
  have hP := Host.steady_lasting memory
  refine .attempt (E := InitStop.Raises (⟨none, none⟩ : Sources ρ)) (confined_of_abreast
    (F := Shared (InitStop.Raises _)) (InitData.readCommand_abreast ?_ ?_ _) fun _ _ he ↦ he) ?_ ?_
  · exact fun _ ↦ .mapError (readNumber_abreast hP.noting.seen _ _) fun _ _ he ↦
      he.raises.imp (congrArg InitStop.scan) id
  · exact fun _ ↦ ⟨rfl, trivial⟩
  · exact fun command ↦ .bind (markData_never hP _ _) fun _ ↦ .pure _
  · intro e he
    match e with
    | .data stop => exact .bind (.report _ _) fun _ ↦ .pure _
    | .scan (.host e) => exact .bind (.report _ _) fun _ ↦ .pure _
    | .scan (.resolve e) => exact absurd (Sources.Escapes.isSome he) Bool.false_ne_true

theorem walkInitData_never (address : Int) :
    Never (Host.Steady memory) (walkInitData (ρ := ρ) address) := by
  refine .bind (.bind .get fun _ ↦ .pure _) fun limit ↦
    .bind (.repeatUpTo walkStep_never _ _) fun found ↦ ?_
  cases found <;> exact .pure _

theorem tableStep_never (hm : sources.Mild) (module : String) (relative : Bool) (table : Int)
    (found : Option Descriptor × Array Vector) :
    Never (Host.Steady memory) (tableStep sources module relative table found) := by
  have hP := Host.steady_lasting memory
  refine .attempt (E := Sources.Raises (⟨none, none⟩ : Sources ρ)) (confined_of_abreast
    (readVector_abreast hP.noting.seen _ _ _) fun _ _ ↦ Sources.Blames.raises) (fun vector ↦ ?_)
    fun e he ↦ ?_
  · cases vector with
    | none => exact .pure _
    | some vector =>
      refine .bind (contains_never _) fun there ↦ ?_
      split
      · exact .pure _
      · exact .bind (decodeVector_never hP hm _ _ _ _ _ _) fun _ ↦ .pure _
  · cases e with
    | host e => exact .bind (.report _ _) fun _ ↦ .pure _
    | resolve e => exact absurd (Sources.Escapes.isSome he) Bool.false_ne_true

theorem decodeTable_decides (hm : sources.Mild) (module : String) (table : Int) :
    (decodeTable sources module table).Decides (Has (Host.Steady memory)) ScanError.OfHost
      (∃ word, memory.number? table 2 = some word) fun _ ↦ True := by
  refine .bind_confined .get fun _ ↦ .bind_true (readNumber_decides 2 table) fun _ word _ ↦ ?_
  refine .bind_confined (.bind .get fun _ ↦ .pure _) fun limit ↦
    .bind_confined (.repeatUpTo (tableStep_never hm _ _ _) _ _) fun found ↦ ?_
  cases found <;> exact .pure trivial

theorem analyzeTable_decides (hs : memory.Sound) (hm : sources.Mild) (module : Resident) :
    (analyzeTable sources module).Decides (Has (Host.Steady memory)) ScanError.OfHost
      (HasTable memory module.init) (·.address = module.address) := by
  refine .of_iff (.bind (read_decides _ tableSize) fun _ raw hraw ↦ ?_) (hasTable_iff ..).symm
  have hfunctions : memory.number? (module.init + 4) 4 = some _ :=
    hs.number?_of_bytes? hraw 4 4 (by decide) (by decide)
  have hP := Host.steady_lasting memory
  simp -zeta only [hfunctions, Option.some.injEq, exists_eq_left']
  extract_lets bytes long table tag finish
  have hfinish : ∀ initData, (finish initData).Decides (Has (Host.Steady memory)) ScanError.OfHost
      (∃ word, memory.number? table.functions 2 = some word) (·.address = module.address) := fun initData ↦
    .bind_confined (markLabel_never hP _ _) fun _ ↦
      .bind_true (decodeTable_decides hm _ _) fun _ _ _ ↦ .pure rfl
  refine .bind_confined (markData_never hP _ _) fun _ ↦ .bind_confined (declare_never hP _ _ _) fun _ ↦ ?_
  split
  · exact .bind_confined (.pure _) hfinish
  · exact .bind_confined (markLabel_never hP _ _) fun _ ↦ .bind_confined (walkInitData_never _) hfinish

theorem analyze_decides (hs : memory.Sound) (hm : sources.Mild) (address : Int) :
    (analyze sources address).Decides (Has (Host.Steady memory)) ScanError.OfHost
      (Decodable memory address) (·.address = address) := by
  refine .of_iff (.bind (read_decides _ structSize) fun _ raw hraw ↦ ?_) (decodable_iff ..).symm
  extract_lets bytes number flags version idAddress place
  have hnumber : ∀ start width, 0 < width → start + width ≤ structSize →
      memory.number? (address + start) width = some (number start width) :=
    hs.number?_of_bytes? hraw
  have hname : memory.number? (address + 14) 4 = some (number 14 4) := hnumber 14 4 (by decide) (by decide)
  have hid : memory.number? (address + 18) 4 = some (number 18 4) := hnumber 18 4 (by decide) (by decide)
  have hflags : memory.number? (address + 10) 1 = some (number 10 1) := hnumber 10 1 (by decide) (by decide)
  have hinit : memory.number? (address + 22) 4 = some (number 22 4) := hnumber 22 4 (by decide) (by decide)
  have hP := Host.steady_lasting memory
  simp -zeta only [hname, hid, hflags, hinit, Option.some.injEq, exists_eq_left']
  refine .bind_confined (markData_never hP _ _) fun _ ↦ .bind (readName_decides _) fun _ name _ ↦ ?_
  extract_lets finish readId
  have hfinish : ∀ idString, (finish idString).Decides (Has (Host.Steady memory)) ScanError.OfHost
      (number 10 1 &&& autoInit ≠ 0 → HasTable memory (number 22 4)) (·.address = address) := by
    refine fun idString ↦ .bind_confined (.report _ _) fun _ ↦ ?_
    extract_lets module
    split <;> rename_i hauto
    · exact (analyzeTable_decides hs hm module).of_iff (imp_iff_right hauto).symm
    · exact .of_iff (.pure rfl) (iff_of_true trivial fun h ↦ absurd h hauto)
  have hread : ∀ hasId, (readId hasId).Decides (Has (Host.Steady memory)) ScanError.OfHost
      ((hasId = true → memory.HasName maxNameLength idAddress) ∧
        (number 10 1 &&& autoInit ≠ 0 → HasTable memory (number 22 4))) (·.address = address) := by
    intro hasId
    dsimp only [readId]
    split <;> rename_i hhas
    · exact .of_iff (.bind (readName_decides _) fun _ idString _ ↦ hfinish idString)
        (and_congr_left' (imp_iff_right hhas).symm)
    · exact .of_iff (.bind_confined (.pure _) hfinish) (and_iff_right fun h ↦ absurd h hhas).symm
  split <;> rename_i hzero
  · refine ((hread false).of_run_eq fun _ ↦ rfl).of_iff (and_congr_left' ?_)
    exact iff_of_true (fun h ↦ nomatch h) fun h ↦ absurd (Nat.cast_eq_zero.mp hzero) h
  · refine (onHost_bind_decides .contains .contains idAddress (·.contains idAddress) (hread _)).of_iff
      (and_congr_left' (imp_iff_right ?_).symm)
    exact fun h ↦ hzero (Nat.cast_eq_zero.mpr h)

/-- Whether a module stands at a match, and which one. -/
theorem examine_decides (hs : memory.Sound) (hm : sources.Mild) (hmatch : memory.Holds address matchWord) :
    (examine sources address).Decides (Has (Host.Steady memory)) (fun _ ↦ False) True fun found ↦
      (Announced memory address ∧ ∃ module, found = some module ∧ module.address = address) ∨
        (¬ Announced memory address ∧ found = none) := by
  refine .attempt (readNumber_decides 4 _) (fun _ tag htag ↦ ?_) fun hnone e he ↦ ?_
  · dsimp only
    split <;> rename_i hne
    · refine .pure (Or.inr ⟨fun h ↦ ?_, rfl⟩)
      obtain ⟨tag', htag', heq⟩ := h.tag
      obtain rfl : tag = tag' := Option.some.inj (htag.symm.trans htag')
      exact hne heq
    · refine .attempt (analyze_decides hs hm address) (fun hd module ha ↦ .pure (Or.inl ⟨?_, _, rfl, ha⟩)) fun hd e he ↦ ?_
      · exact ⟨hmatch, ⟨tag, htag, not_not.mp hne⟩, hd⟩
      · match e with
        | .host e => exact .bind_confined (.report _ _) fun _ ↦ .pure (Or.inr ⟨fun h ↦ hd h.decodable, rfl⟩)
        | .resolve e => cases he
  · match e with
    | .host e => exact .pure (Or.inr ⟨fun h ↦ hnone ⟨_, h.tag.choose_spec.1⟩, rfl⟩)
    | .resolve e => cases he

/-- From an address on these modules stand in a memory, in order, and no others do. -/
structure Finds (memory : Memory) (start : Int) (modules : List Resident) : Prop where
  increasing : (modules.map (·.address)).Pairwise (· < ·)
  mem_iff : ∀ address, address ∈ modules.map (·.address) ↔ start ≤ address ∧ Announced memory address

theorem finds_nil {start : Int} (h : ∀ address, start ≤ address → ¬ memory.Holds address matchWord) :
    Finds memory start [] where
  increasing := .nil
  mem_iff address := iff_of_false List.not_mem_nil fun ⟨hle, ha⟩ ↦ h address hle ha.matchWord

/-- Announcing words do not overlap. -/
theorem not_holds_succ (hs : memory.Sound) (h : memory.Holds address matchWord) :
    ¬ memory.Holds (address + 1) matchWord := by
  obtain ⟨region, hr, hholds : region.Holds address matchWord⟩ := h
  rintro ⟨other, ho, hholds' : other.Holds (address + 1) matchWord⟩
  have hsame : region = other := by
    have hstop : address + 2 ≤ region.stop := hholds.2.1
    have hstop' : address + 1 + 2 ≤ other.stop := hholds'.2.1
    by_contra hne
    rcases hs.apart hr ho hne with hle | hle
    · have hstart := hholds'.1
      omega
    · have hstart := hholds.1
      omega
  subst hsame
  obtain ⟨hle, -, data, hd, -⟩ := id hholds
  have hiff : ∀ place, region.Holds place matchWord ↔ region.start ≤ place ∧
      Bytes.matchesAt data (place - region.start).toNat matchWord = true :=
    fun _ ↦ Region.holds_iff hd (hs.filled region hr data hd) (by decide)
  have hfirst := Bytes.matchesAt_iff.mp ((hiff _).mp hholds).2 1 (by decide)
  have hsecond := Bytes.matchesAt_iff.mp ((hiff _).mp hholds').2 0 (by decide)
  have hplace : (address + 1 - region.start).toNat = (address - region.start).toNat + 1 := by omega
  rw [Nat.add_zero, hplace, hfirst] at hsecond
  cases hsecond

/-- Behind a match the search goes on two bytes later, and misses nothing. -/
theorem announced_iff_of_isLeast {start match' : Int} (hs : memory.Sound)
    (hleast : IsLeast {address | start ≤ address ∧ memory.Holds address matchWord} match') (address : Int) :
    start ≤ address ∧ Announced memory address ↔
      (address = match' ∧ Announced memory match') ∨ (match' + 2 ≤ address ∧ Announced memory address) := by
  obtain ⟨⟨hstart, hholds⟩, hfirst⟩ := hleast
  constructor
  · rintro ⟨hle, ha⟩
    have hge : match' ≤ address := hfirst ⟨hle, ha.matchWord⟩
    rcases hge.eq_or_lt with rfl | hlt
    · exact Or.inl ⟨rfl, ha⟩
    · have hne : address ≠ match' + 1 := fun he ↦ not_holds_succ hs hholds (he ▸ ha.matchWord)
      exact Or.inr ⟨by omega, ha⟩
  · rintro (⟨rfl, ha⟩ | ⟨hle, ha⟩)
    · exact ⟨hstart, ha⟩
    · exact ⟨by omega, ha⟩

theorem Finds.of_none {start match' : Int} {modules : List Resident} (h : Finds memory (match' + 2) modules)
    (hs : memory.Sound) (hleast : IsLeast {address | start ≤ address ∧ memory.Holds address matchWord} match')
    (hnot : ¬ Announced memory match') : Finds memory start modules where
  increasing := h.increasing
  mem_iff address := by
    rw [h.mem_iff, announced_iff_of_isLeast hs hleast]
    exact (or_iff_right fun hm ↦ hnot hm.2).symm

theorem Finds.cons {start match' : Int} {modules : List Resident} {module : Resident}
    (h : Finds memory (match' + 2) modules) (hs : memory.Sound)
    (hleast : IsLeast {address | start ≤ address ∧ memory.Holds address matchWord} match')
    (ha : Announced memory match') (hmodule : module.address = match') :
    Finds memory start (module :: modules) where
  increasing := by
    refine List.pairwise_cons.mpr ⟨fun address hm ↦ ?_, h.increasing⟩
    have hbehind := ((h.mem_iff address).mp hm).1
    dsimp only
    omega
  mem_iff address := by
    rw [announced_iff_of_isLeast hs hleast, List.map_cons, List.mem_cons, h.mem_iff, hmodule,
      and_iff_left ha]

theorem scanStep_decides (hs : memory.Sound) (hm : sources.Mild) (found : Int × Array Resident) :
    (scanStep sources found).Decides (Has (Host.Steady memory)) (fun _ ↦ False) True fun
      | .inr modules => modules = found.2 ∧ Finds memory found.1 []
      | .inl next => ∃ more, next.2.toList = found.2.toList ++ more ∧
          ∀ modules, Finds memory next.1 modules → Finds memory found.1 (more ++ modules) := by
  refine onHost_bind_decides .find .find found.1 (·.find? found.1 matchWord) ?_
  cases hfind : memory.find? found.1 matchWord with
  | none => exact .pure ⟨rfl, finds_nil fun _ ↦ hs.not_holds_of_find? (by decide) hfind⟩
  | some address =>
    have hleast := hs.isLeast_of_find? (by decide) hfind
    refine .bind_true (examine_decides hs hm hleast.1.2) ?_
    rintro - _ (⟨ha, module, rfl, hmodule⟩ | ⟨hnot, rfl⟩)
    · refine .pure ⟨[module], Array.toList_push .., fun modules h ↦ ?_⟩
      exact h.cons hs hleast ha hmodule
    · refine .pure ⟨[], (List.append_nil _).symm, fun modules h ↦ ?_⟩
      exact h.of_none hs hleast hnot

/-- The rounds of a scan from an address on find what stands there. -/
theorem finds_of_rounds (hs : memory.Sound) (hm : sources.Mild) {found : Int × Array Resident}
    {scanner scanner' : Scanner ρ} {r : Except ScanError (Array Resident)}
    (h : Rounds (scanStep sources) found scanner r scanner') (hsteady : Has (Host.Steady memory) scanner) :
    ∃ modules more, r = .ok modules ∧ modules.toList = found.2.toList ++ more ∧
      Finds memory found.1 more := by
  induction h with
  | @answer found scanner _ modules hrun =>
    obtain ⟨next, _, hok, hnext, -⟩ := (scanStep_decides hs hm found).exists_ok trivial hsteady
    cases hrun.symm.trans hok
    obtain ⟨rfl, hfinds⟩ := hnext
    exact ⟨_, [], rfl, (List.append_nil _).symm, hfinds⟩
  | @fail found scanner _ _ hrun =>
    obtain ⟨next, _, hok, -⟩ := (scanStep_decides hs hm found).exists_ok trivial hsteady
    cases hrun.symm.trans hok
  | @next found _ scanner _ _ _ hrun _ ih =>
    obtain ⟨next, _, hok, hnext, hsteady'⟩ := (scanStep_decides hs hm found).exists_ok trivial hsteady
    cases hrun.symm.trans hok
    obtain ⟨more, hmore, hfinds⟩ := hnext
    obtain ⟨modules, rest, rfl, hrest, hfound⟩ := ih hsteady'
    exact ⟨modules, more ++ rest, rfl, by rw [hrest, hmore, List.append_assoc], hfinds rest hfound⟩

/-- A scan returns, and finds the modules that stand in memory from its start on and no others, whatever
else is there. -/
theorem scan_finds (sources : Sources ρ) (scanner : Scanner ρ) (start : Int)
    (hlaid : scanner.memory.Laid) (hr : scanner.host.Reliable) (hm : sources.Mild) :
    ∃ modules scanner', run (scan sources start) scanner = (.ok modules, scanner') ∧
      Finds scanner.memory start modules := by
  obtain ⟨r, scanner', hrounds, hrun⟩ := (loopsEnd sources scanner).modules start
  obtain ⟨modules, more, rfl, hmodules, hfinds⟩ := finds_of_rounds hlaid.sound hm hrounds ⟨hr, rfl⟩
  refine ⟨_, scanner', hrun, ?_⟩
  rwa [hmodules]

/-- Two structures that announce a module, the first of which has no name. The second one leads to a table
with five functions. -/
def samplePlan : Region.Plan where
  name := "ROM"
  address := 0x1000
  data := some #[
    0x4a, 0xfc, 0, 0, 0x10, 0, 0, 0, 0, 0, 0, 0, 0, 0, 0, 0, 0, 0, 0, 0, 0, 0, 0, 0, 0, 0,
    0x4a, 0xfc, 0, 0, 0x10, 0x1a, 0, 0, 0, 0, 0x80, 1, 9, 0, 0, 0, 0x10, 0x34, 0, 0, 0, 0, 0, 0, 0x10, 0x36,
    0x61, 0,
    0, 0, 0, 0, 0, 0, 0x10, 0x46, 0, 0, 0, 0, 0, 0, 0x10, 0x34,
    0xff, 0xff, 0, 0, 0, 0, 0, 0, 0, 0, 0, 0, 0xff, 0xff]

def sampleSources : Sources Unit where
  types := none
  resolver := some fun library ↦ throw (.file (.missing library))

def sampleScanner : Scanner Unit where
  host := (run (Host.createBlock samplePlan) (.ofProgram .empty)).2
  registry := []
  asked := []
  diagnostics := #[]
  lookups := ()

theorem scan_finds_sample :
    sampleScanner.memory.Laid ∧ sampleScanner.host.Reliable ∧ sampleSources.Mild ∧
      (∃ modules scanner', run (scan sampleSources 0x1000) sampleScanner = (.ok modules, scanner') ∧
        Finds sampleScanner.memory 0x1000 modules) ∧
      (run (scan sampleSources 0x1000) sampleScanner).1.map (List.map Resident.address) = .ok [0x101a] := by
  have hcreate : Memory.create samplePlan [] = .ok (Memory.planned samplePlan 84, sampleScanner.memory) := rfl
  have hlaid : sampleScanner.memory.Laid := .create .empty (Region.Plan.fits_of_one (Or.inr rfl)) hcreate
  have hr : sampleScanner.host.Reliable := rfl
  have hm : sampleSources.Mild := by
    rintro _ ⟨⟩ library lookups e he
    cases he
    rfl
  exact ⟨hlaid, hr, hm, scan_finds sampleSources sampleScanner 0x1000 hlaid hr hm, by decide +kernel⟩

end Scanner

end Resident

end Hunks
