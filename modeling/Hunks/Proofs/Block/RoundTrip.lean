import Mathlib
import Hunks.File
import Hunks.Proofs.Block.Formats

namespace Hunks

open Decoder
open Hunks.Action (run)

namespace Body

/-- A body as it reads behind a tag at a place: a segment tells where its data lie. -/
def located (start : Nat) : Body → Body
  | segment kind content =>
    segment kind { content with
      dataOffset := if kind = .bss then none else some ((start + 8 : Nat) : Int) }
  | body => body

end Body

namespace Block

variable {executable : Bool} {window : Window} {pos : Nat}

mutual

/-- A block as it reads at a place, with its extent. -/
def located (start : Nat) : Block → Block
  | plain frame body =>
    plain ⟨frame.tag, some (start : Int),
      some ((start + (written (plain frame body)).length : Nat) : Int)⟩ (body.located start)
  | library frame blocks =>
    library ⟨frame.tag, some (start : Int),
      some ((start + (written (library frame blocks)).length : Nat) : Int)⟩
      (allLocated (start + 8) blocks)

/-- Blocks that follow each other from a place on. -/
def allLocated (start : Nat) : List Block → List Block
  | [] => []
  | block :: blocks => located start block :: allLocated (start + (written block).length) blocks

end

theorem reads_plain {α : Type} (tag : Nat) (start : Int) (content : α) (body : α → Body) :
    Reads (decodeContent.plain tag start content body) window pos []
      (plain ⟨some (tag : Int), some start, some (pos : Int)⟩ (body content)) :=
  reads_position.bind_pure

theorem longBytes_eq {data : Bytes} (h : Body.IsLongs data) :
    Encode.longBytes data.toList = Bytes.long (data.size / 4 : Nat) ++ data.toList := by
  have hlength : data.toList.length % 4 = 0 := h.1
  rw [Encode.longBytes, Bytes.padLong_eq hlength, Array.length_toList]
  rfl

theorem dvd_longBytes {data : Bytes} (h : Body.IsLongs data) :
    4 ∣ (Encode.longBytes data.toList).length := by
  have hdvd := Nat.dvd_of_mod_eq_zero h.1
  rw [longBytes_eq h, List.length_append, Bytes.length_long, Array.length_toList]
  omega

theorem reads_stored {data : Bytes} (h : Body.IsLongs data) :
    Reads Body.decodeBytes window pos (Encode.longBytes data.toList) data := by
  have hsize : data.size = data.size / 4 * 4 := (Nat.div_mul_cancel (Nat.dvd_of_mod_eq_zero h.1)).symm
  rw [longBytes_eq h]
  exact (reads_word h.2).bind (reads_longBytes hsize)

theorem reads_debugData {data : Bytes} (h : Body.IsLongs data) :
    Reads Body.decodeDebug window pos (Encode.longBytes data.toList) data := by
  have hsize : data.size = data.size / 4 * 4 := (Nat.div_mul_cancel (Nat.dvd_of_mod_eq_zero h.1)).symm
  rw [longBytes_eq h]
  exact (reads_word h.2).bind ((reads_debug _).bind (reads_longBytes hsize))

/-- What follows the tag of a block reads back as its body, whatever reads nested blocks. -/
theorem encodeBody_reads {body : Body} {tag : Nat} (ht : tag < 2 ^ 32) (h : body.InRange tag)
    (hw : body.Writable) :
    ∃ bytes, body.encode (some (tag : Int)) = .ok bytes ∧ 4 ∣ bytes.length ∧
      ∀ nested window (start : Nat), Reads (decodeContent nested tag start body.kind) window (start + 4)
        bytes (plain ⟨some (tag : Int), some (start : Int), some ((start + 4 + bytes.length : Nat) : Int)⟩
          (body.located start)) := by
  cases body with
  | header header =>
    obtain ⟨bytes, hb, _, hd, hr⟩ := Header.undoes_encode h
    exact ⟨bytes, hb, hd, fun _ window start ↦ (hr window _).bind_last (reads_plain _ _ _ _)⟩
  | unit text =>
    obtain ⟨bytes, hb, _, hd, hr⟩ := undoes_name h
    refine ⟨bytes, hb, hd, fun _ window start ↦ Reads.bind_last ?_ (reads_plain _ _ _ _)⟩
    exact (hr window _).bind_last ((reads_debug _).bind (reads_pure _))
  | name text =>
    obtain ⟨bytes, hb, _, hd, hr⟩ := undoes_name h
    refine ⟨bytes, hb, hd, fun _ window start ↦ Reads.bind_last ?_ (reads_plain _ _ _ _)⟩
    exact (hr window _).bind_last ((reads_debug _).bind (reads_pure _))
  | segment kind content =>
    obtain ⟨bytes, hb, hd, hr⟩ := SegmentContent.encode_reads ht h
    exact ⟨bytes, hb, hd, fun _ window start ↦ (hr window _).bind_last (reads_plain _ _ _ _)⟩
  | relocs kind groups =>
    obtain ⟨hd, hr⟩ := RelocGroup.encodeAll_reads h
    exact ⟨_, rfl, hd, fun _ window start ↦ (hr window _).bind_last (reads_plain _ _ _ _)⟩
  | symbols entries =>
    obtain ⟨bytes, hb, hd, hr⟩ := concat_many fun entry hm ↦ SymbolEntry.undoes_encode (h entry hm)
    refine ⟨_, by rw [Body.encode, hb]; rfl, ?_, fun _ window start ↦
      (hr _ SymbolEntry.reads_end window _).bind_last (reads_plain _ _ _ _)⟩
    rw [List.length_append, Bytes.length_long]
    omega
  | externals entries =>
    obtain ⟨bytes, hb, hd, hr⟩ := concat_many fun entry hm ↦
      External.undoes_encode (h entry hm) (hw entry hm)
    refine ⟨_, by rw [Body.encode, hb]; rfl, ?_, fun _ window start ↦
      (hr _ External.reads_end window _).bind_last (reads_plain _ _ _ _)⟩
    rw [List.length_append, Bytes.length_long]
    omega
  | debug data =>
    exact ⟨_, rfl, dvd_longBytes h, fun _ _ _ ↦ (reads_debugData h).bind_last (reads_plain _ _ _ _)⟩
  | overlay data =>
    exact ⟨_, rfl, dvd_longBytes h, fun _ _ _ ↦ (reads_stored h).bind_last (reads_plain _ _ _ _)⟩
  | continuation data =>
    exact ⟨_, rfl, dvd_longBytes h, fun _ _ _ ↦ (reads_stored h).bind_last (reads_plain _ _ _ _)⟩
  | ending => exact ⟨[], rfl, by decide, fun _ _ _ ↦ reads_plain _ _ () _⟩
  | pause => exact ⟨[], rfl, by decide, fun _ _ _ ↦ reads_plain _ _ () _⟩
  | index index =>
    obtain ⟨bytes, hb, _, hd, hr⟩ := Index.undoes_encode h hw
    exact ⟨bytes, hb, hd, fun _ window start ↦ (hr window _).bind_last (reads_plain _ _ _ _)⟩

theorem kindOfTag?_eq {kind : Kind} {tag : Nat} (h : IsTag executable kind tag) :
    kindOfTag? executable tag = some kind := by
  rw [kindOfTag?, and_sizeMask]
  obtain ⟨-, ⟨hn, hd⟩ | ⟨he, hk, hn⟩⟩ := h
  · rw [hn, Kind.ofNumber?_number]
    by_cases hk : kind = .relocs .dataReloc32
    · subst hk
      have hexe : executable = false := by simpa using hd
      rw [hexe]
      rfl
    · split
      · exact absurd (Option.some.inj ‹_›) hk
      · rfl
  · rw [hn, hk, he]
    rfl

theorem reads_tag {kind : Kind} {tag : Nat} (h : IsTag executable kind tag)
    {nested : Int → Decoder (List Block)} {bytes : List UInt8} {block : Block}
    (hr : Reads (decodeContent nested tag pos kind) window (pos + 4) bytes block) :
    Reads (decodeWith nested executable) window pos (Bytes.long tag ++ bytes) block := by
  refine reads_position.bind ((reads_word h.1).bind ?_)
  simp only [kindOfTag?_eq h]
  split
  · exact (reads_debug _).bind ((reads_debug _).bind hr)
  · exact (reads_debug _).bind hr

theorem written_eq {block : Block} {bytes : List UInt8}
    (h : run (encode 0 block) () = (.ok bytes, ())) : block.written = bytes := by
  have hr : (encode 0 block ()).result = .ok bytes := congrArg Prod.fst h
  rw [written, hr]

theorem run_encode_plain {frame : Frame} {body : Body} {tag : Nat} (ht : frame.tag = some (tag : Int))
    {bytes : List UInt8} (hb : body.encode frame.tag = .ok bytes) (offset : Nat) :
    run (encode offset (plain frame body)) () = (.ok (Bytes.long tag ++ bytes), ()) := by
  rw [encode, Action.run_bind, Action.run_debug, hb, tagBytes, Block.frame, ht]
  rfl

theorem run_encode_library {frame : Frame} {blocks : List Block} {tag : Nat}
    (ht : frame.tag = some (tag : Int)) {bytes : List UInt8}
    (hb : run (encodeAll #[] blocks) () = (.ok bytes.toArray, ())) (offset : Nat) :
    run (encode offset (library frame blocks)) () =
      (.ok (Bytes.long tag ++ (Bytes.long (bytes.length / 4 : Nat) ++ bytes)), ()) := by
  rw [encode, Action.run_bind, Action.run_debug]
  dsimp only
  rw [Action.run_bind, hb, tagBytes, Block.frame, ht]
  simp only [Action.run_pure, List.append_assoc, List.size_toArray]
  rfl

mutual

theorem run_encode (block : Block) (h : block.InRange executable) (hw : block.Writable) :
    (∀ offset, run (encode offset block) () = (.ok block.written, ())) ∧ 4 ∣ block.written.length :=
  match block with
  | plain frame body => by
    obtain ⟨tag, ht, ⟨hlt, _⟩, hbody⟩ := h
    obtain ⟨bytes, hb, hd, _⟩ := encodeBody_reads hlt hbody hw
    have hrun := run_encode_plain ht (by rw [ht]; exact hb)
    rw [written_eq (hrun 0)]
    refine ⟨hrun, ?_⟩
    rw [List.length_append, Bytes.length_long]
    omega
  | library frame blocks => by
    obtain ⟨⟨tag, ht, _⟩, hblocks⟩ := h
    obtain ⟨hall, hd⟩ := run_encodeAll blocks hblocks hw.1
    have hrun := run_encode_library ht (by simpa using hall #[])
    rw [written_eq (hrun 0)]
    refine ⟨hrun, ?_⟩
    simp only [List.length_append, Bytes.length_long]
    omega

theorem run_encodeAll (blocks : List Block) (h : AllInRange executable blocks)
    (hw : AllWritable blocks) :
    (∀ pre, run (encodeAll pre blocks) () = (.ok (pre ++ (allWritten blocks).toArray), ())) ∧
      4 ∣ (allWritten blocks).length :=
  match blocks with
  | [] => ⟨fun pre ↦ by simp [encodeAll, allWritten], by simp [allWritten]⟩
  | block :: blocks => by
    obtain ⟨hblock, hd⟩ := run_encode block h.1 hw.1
    obtain ⟨hblocks, hds⟩ := run_encodeAll blocks h.2 hw.2
    have hcons : allWritten (block :: blocks) = block.written ++ allWritten blocks := rfl
    rw [hcons]
    refine ⟨fun pre ↦ ?_, ?_⟩
    · rw [encodeAll, Action.run_bind, hblock]
      dsimp only
      rw [hblocks]
      have happend : pre ++ block.written ++ (allWritten blocks).toArray =
          pre ++ (block.written ++ allWritten blocks).toArray := by
        apply Array.ext'
        simp
      rw [happend]
    · rw [List.length_append]
      exact Nat.dvd_add hd hds

end

variable {blocks : List Block}

theorem written_plain {frame : Frame} {body : Body} (h : (plain frame body).InRange executable)
    (hw : (plain frame body).Writable) (nested : Int → Decoder (List Block)) :
    Reads (decodeWith nested executable) window pos (plain frame body).written
      ((plain frame body).located pos) := by
  obtain ⟨tag, ht, htag, hbody⟩ := h
  obtain ⟨bytes, hb, _, hr⟩ := encodeBody_reads htag.1 hbody hw
  have hwritten := written_eq (run_encode_plain ht (by rw [ht]; exact hb) 0)
  have hread := reads_tag htag (hr nested window pos)
  rw [located, hwritten, ht, List.length_append, Bytes.length_long, ← Nat.add_assoc]
  exact hread

theorem written_library {frame : Frame} (h : (library frame blocks).InRange executable)
    (hw : (library frame blocks).Writable) {nested : Int → Decoder (List Block)}
    (hn : Reads (nested ((pos + 8 + (allWritten blocks).length : Nat) : Int)) window (pos + 8)
      (allWritten blocks) (allLocated (pos + 8) blocks)) :
    Reads (decodeWith nested executable) window pos (library frame blocks).written
      ((library frame blocks).located pos) := by
  obtain ⟨⟨tag, ht, htag⟩, hblocks⟩ := h
  obtain ⟨hall, hd⟩ := run_encodeAll blocks hblocks hw.1
  have hwritten := written_eq (run_encode_library ht (by simpa using hall #[]) 0)
  rw [located, hwritten, ht]
  refine reads_tag htag ((reads_word hw.2).bind ?_)
  rw [Bytes.length_long]
  refine reads_position.bind_first ((reads_info _).bind ?_)
  have hstop : ((pos + 4 + 4 : Nat) : Int) + ((allWritten blocks).length / 4 : Nat) * 4 =
      ((pos + 8 + (allWritten blocks).length : Nat) : Int) := by
    omega
  rw [hstop]
  have hlength : pos + (Bytes.long tag ++ (Bytes.long ((allWritten blocks).length / 4 : Nat) ++
      allWritten blocks)).length = pos + 8 + (allWritten blocks).length := by
    simp only [List.length_append, Bytes.length_long]
    omega
  rw [hlength]
  refine hn.bind_last (reads_position.bind ?_)
  rw [if_neg (not_not.mpr (Int.sub_self _))]
  exact reads_position.bind_pure

/-- A loop over blocks that lie one after the other. -/
theorem readsMany_blocks {x : Decoder (Option Block)} {stop : Nat}
    (hlast : Reads x window stop [] none)
    (hstep : ∀ block ∈ blocks, ∀ pos, pos + block.written.length ≤ stop →
      block.written ≠ [] ∧ Reads x window pos block.written (some (block.located pos)))
    (hp : pos + (allWritten blocks).length = stop) :
    ReadsMany (fun (_ : Unit) ↦ do return (← x).map (·, ())) window () pos (allWritten blocks)
      (allLocated pos blocks) () := by
  induction blocks generalizing pos with
  | nil =>
    obtain rfl : pos = stop := hp
    exact .stop hlast.bind_pure
  | cons block blocks ih =>
    obtain ⟨hblock, hblocks⟩ := List.forall_mem_cons.mp hstep
    have hcons : allWritten (block :: blocks) = block.written ++ allWritten blocks := rfl
    rw [hcons, List.length_append] at hp
    rw [hcons, allLocated]
    obtain ⟨hne, hread⟩ := hblock pos (by omega)
    exact .step hne hread.bind_pure (ih hblocks (by omega))

theorem reads_blocks {x : Decoder (Option Block)}
    (hlast : Reads x window (pos + (allWritten blocks).length) [] none)
    (hstep : ∀ block ∈ blocks, ∀ pos', pos' + block.written.length ≤ pos + (allWritten blocks).length →
      block.written ≠ [] ∧ Reads x window pos' block.written (some (block.located pos'))) :
    Reads (many x) window pos (allWritten blocks) (allLocated pos blocks) :=
  (reads_manyWith (readsMany_blocks hlast hstep rfl)).map Prod.fst

theorem length_written (block : Block) (h : block.InRange executable) (hw : block.Writable) :
    4 ≤ block.written.length := by
  cases block with
  | plain frame body =>
    obtain ⟨tag, ht, htag, hbody⟩ := h
    obtain ⟨bytes, hb, _, _⟩ := encodeBody_reads htag.1 hbody hw
    rw [written_eq (run_encode_plain ht (by rw [ht]; exact hb) 0), List.length_append,
      Bytes.length_long]
    omega
  | library frame blocks =>
    obtain ⟨⟨tag, ht, _⟩, hblocks⟩ := h
    obtain ⟨hall, _⟩ := run_encodeAll blocks hblocks hw.1
    rw [written_eq (run_encode_library ht (by simpa using hall #[]) 0), List.length_append,
      Bytes.length_long]
    omega

theorem allWritable_iff (blocks : List Block) :
    AllWritable blocks ↔ ∀ block ∈ blocks, block.Writable := by
  induction blocks with
  | nil => simp [AllWritable]
  | cons block blocks ih => simp [AllWritable, ih]

theorem length_le_allWritten {block : Block} (h : block ∈ blocks) :
    block.written.length ≤ (allWritten blocks).length := by
  rw [allWritten, List.length_flatMap]
  exact List.single_le_sum (by simp) _ (List.mem_map_of_mem h)

/-- A block in a list is read if a library's blocks are, which take eight bytes less. -/
theorem reads_block {nested : Int → Decoder (List Block)} {size : Nat}
    (hn : ∀ blocks pos, AllInRange executable blocks → AllWritable blocks →
      (allWritten blocks).length + 8 ≤ size →
      Reads (nested ((pos + (allWritten blocks).length : Nat) : Int)) window pos (allWritten blocks)
        (allLocated pos blocks))
    {block : Block} (h : block.InRange executable) (hw : block.Writable)
    (hs : block.written.length ≤ size) (pos : Nat) :
    Reads (decodeWith nested executable) window pos block.written (block.located pos) := by
  cases block with
  | plain frame body => exact written_plain h hw nested
  | library frame blocks =>
    refine written_library h hw (hn blocks (pos + 8) h.2 hw.1 ?_)
    obtain ⟨⟨tag, ht, _⟩, hblocks⟩ := h
    obtain ⟨hall, _⟩ := run_encodeAll blocks hblocks hw.1
    rw [written_eq (run_encode_library ht (by simpa using hall #[]) 0)] at hs
    simp only [List.length_append, Bytes.length_long] at hs
    omega

theorem reads_decodeNested (depth : Nat) {blocks : List Block} (h : AllInRange executable blocks)
    (hw : AllWritable blocks) (hd : (allWritten blocks).length < 8 * depth) (pos : Nat) :
    Reads (decodeNested executable depth ((pos + (allWritten blocks).length : Nat) : Int)) window pos
      (allWritten blocks) (allLocated pos blocks) := by
  induction depth generalizing blocks pos with
  | zero => omega
  | succ depth ih =>
    refine reads_blocks ?_ fun block hm pos' hp ↦ ?_
    · refine reads_position.bind ?_
      rw [if_pos le_rfl]
      exact reads_pure none
    · have hblock := (allInRange_iff blocks).mp h block hm
      have hwblock := (allWritable_iff blocks).mp hw block hm
      have hlength := length_written block hblock hwblock
      refine ⟨List.ne_nil_of_length_pos (by omega), reads_position.bind_first ?_⟩
      rw [if_neg (by omega)]
      have hnested : ∀ blocks' pos, AllInRange executable blocks' → AllWritable blocks' →
          (allWritten blocks').length + 8 ≤ (allWritten blocks).length → Reads (decodeNested executable depth
            ((pos + (allWritten blocks').length : Nat) : Int)) window pos (allWritten blocks')
            (allLocated pos blocks') :=
        fun blocks' pos hr hw hs ↦ ih hr hw (by omega) pos
      exact (reads_block hnested hblock hwblock (length_le_allWritten hm) _).bind_pure

theorem reads_nested (h : AllInRange executable blocks) (hw : AllWritable blocks) (pos : Nat) :
    Reads (nested executable ((pos + (allWritten blocks).length : Nat) : Int)) window pos
      (allWritten blocks) (allLocated pos blocks) := by
  intro hholds
  have hstop := hholds.stop
  have hread := reads_decodeNested ((window.stop - pos).toNat / 8 + 1) h hw (by omega) pos hholds
  exact bind_eq_ok.mpr ⟨window.stop - pos, pos, rfl, hread⟩

theorem reads_decodeAll (h : AllInRange executable blocks) (hw : AllWritable blocks)
    (hstop : window.stop = ((pos + (allWritten blocks).length : Nat) : Int)) :
    Reads (decodeAll executable) window pos (allWritten blocks) (allLocated pos blocks) := by
  have hend : ∀ pos, Reads atEnd window pos [] (decide (window.stop ≤ (pos : Int))) :=
    fun _ _ ↦ rfl
  have hremaining : ∀ pos, Reads remaining window pos [] (window.stop - (pos : Int)) :=
    fun _ _ ↦ rfl
  refine reads_blocks ?_ fun block hm pos' hp ↦ ?_
  · refine (hend _).bind ?_
    rw [hstop, decide_eq_true le_rfl, if_pos rfl]
    exact reads_pure none
  · have hblock := (allInRange_iff blocks).mp h block hm
    have hwblock := (allWritable_iff blocks).mp hw block hm
    have hlength := length_written block hblock hwblock
    refine ⟨List.ne_nil_of_length_pos (by omega), (hend _).bind_first ?_⟩
    rw [decide_eq_false (by omega), if_neg Bool.false_ne_true]
    refine (hremaining _).bind_first ?_
    rw [if_neg (by omega)]
    exact (reads_block (fun _ pos hr hw _ ↦ reads_nested hr hw pos) hblock hwblock
      (length_le_allWritten hm) _).bind_pure

theorem encodeAll_written (h : WellFormed executable blocks) :
    (encodeAll #[] blocks ()).result = .ok (allWritten blocks).toArray := by
  obtain ⟨hrun, -⟩ := run_encodeAll blocks h.1 h.2
  have hencode : run (encodeAll #[] blocks) () = (.ok (allWritten blocks).toArray, ()) := by
    simpa using hrun #[]
  exact congrArg Prod.fst hencode

theorem decodeAll_written (h : WellFormed executable blocks) :
    run (decodeAll executable (.ofBytes (allWritten blocks).toArray none)) 0 =
      (.ok (allLocated 0 blocks), ((allWritten blocks).length : Int)) := by
  have hreads : Reads (decodeAll executable) (.ofBytes (allWritten blocks).toArray none) 0
      (allWritten blocks) (allLocated 0 blocks) :=
    reads_decodeAll h.1 h.2 (by simp [Window.ofBytes])
  have hread := hreads (.ofBytes _)
  rwa [Nat.zero_add] at hread

/-- Well-formed blocks are written, and what was written reads back to its end as the same blocks,
each at its place. -/
theorem decodeAll_encodeAll (h : WellFormed executable blocks) :
    ∃ bytes, (encodeAll #[] blocks ()).result = .ok bytes ∧
      (decodeAll executable (.ofBytes bytes none) 0).result = .ok (allLocated 0 blocks) ∧
      (decodeAll executable (.ofBytes bytes none) 0).state = bytes.size := by
  have hread := decodeAll_written h
  exact ⟨(allWritten blocks).toArray, encodeAll_written h, congrArg Prod.fst hread,
    congrArg Prod.snd hread⟩

/-- A unit with its code in a library. -/
def sample : List Block :=
  [plain ⟨some 999, none, none⟩ (.unit "demo"),
    library ⟨some 1018, none, none⟩
      [plain ⟨some 0x400003e9, none, none⟩
          (.segment .code ⟨1, 0x40000000, none, some #[0x4e, 0x75, 0, 0]⟩),
        plain ⟨some 1020, none, none⟩ (.relocs .reloc32Short [⟨0, [2]⟩]),
        plain ⟨some 1010, none, none⟩ .ending]]

theorem decodeAll_encodeAll_sample : WellFormed false sample ∧
    ∃ bytes, (encodeAll #[] sample ()).result = .ok bytes ∧
      (decodeAll false (.ofBytes bytes none) 0).result = .ok (allLocated 0 sample) ∧
      (decodeAll false (.ofBytes bytes none) 0).state = bytes.size := by
  have hunit : (plain ⟨some 999, none, none⟩ (.unit "demo")).InRange false :=
    ⟨999, rfl, ⟨by decide, .inl ⟨rfl, by simp⟩⟩, by simp, by decide⟩
  have hcode : (plain ⟨some 0x400003e9, none, none⟩
      (.segment .code ⟨1, 0x40000000, none, some #[0x4e, 0x75, 0, 0]⟩)).InRange false :=
    ⟨0x400003e9, rfl, ⟨by decide, .inl ⟨by decide, by simp⟩⟩, by decide,
      ⟨0x40000000, rfl, by decide, by decide⟩, by decide, by simp, fun _ ↦ ⟨_, rfl, by decide⟩⟩
  have hrelocs : (plain ⟨some 1020, none, none⟩ (.relocs .reloc32Short [⟨0, [2]⟩])).InRange false := by
    refine ⟨1020, rfl, ⟨by decide, .inl ⟨rfl, by simp⟩⟩, fun group hm ↦ ?_⟩
    obtain rfl := List.mem_singleton.mp hm
    exact ⟨by simp, ⟨by decide, by decide⟩, ⟨by decide, by decide⟩, by simp [Fits, RelocKind.numberBytes,
      RelocKind.isShort]⟩
  have hend : (plain ⟨some 1010, none, none⟩ .ending).InRange false :=
    ⟨1010, rfl, ⟨by decide, .inl ⟨rfl, by simp⟩⟩, trivial⟩
  have h : WellFormed false sample := by
    refine ⟨⟨hunit, ⟨⟨1018, rfl, by decide, .inl ⟨rfl, by simp⟩⟩, hcode, hrelocs, hend, trivial⟩,
      trivial⟩, trivial, ⟨⟨trivial, trivial, trivial, trivial⟩, ?_⟩, trivial⟩
    decide +kernel
  exact ⟨h, decodeAll_encodeAll h⟩

end Block

end Hunks
