import Mathlib
import Hunks.Proofs.Block.Nesting

namespace Hunks

open Decoder
open Hunks.Action (run)

/-- The data of a segment are the bytes at its data offset, within a part of the input; a BSS segment
has none. -/
def SegmentContent.Stored (content : SegmentContent) (kind : SegmentKind) (data : Bytes)
    (start stop : Int) : Prop :=
  if kind = .bss then
    content.dataOffset = none ∧ content.data = none
  else
    ∃ place longs : Nat, content.dataOffset = some (place : Int) ∧ content.sizeLongs = longs ∧
      start ≤ place ∧ (place : Int) + 4 * longs ≤ stop ∧ place + 4 * longs ≤ data.size ∧
      content.data = some (data.extract place (place + 4 * longs))

def Body.Stored (data : Bytes) (start stop : Int) : Body → Prop
  | .segment kind content => content.Stored kind data start stop
  | _ => True

namespace Block

variable {executable : Bool} {window : Window} {pos mid pos' : Int} {block : Block}
  {blocks : List Block}

mutual

/-- A block takes a part of the input, which the blocks of a library tile from its ninth byte on. -/
def Fills (data : Bytes) : (start stop : Int) → Block → Prop
  | start, stop, plain frame body => frame.start = some start ∧ frame.stop = some stop ∧
      start + 4 ≤ stop ∧ body.Stored data start stop
  | start, stop, library frame blocks => frame.start = some start ∧ frame.stop = some stop ∧
      start + 8 ≤ stop ∧ Tiles data (start + 8) stop blocks

/-- Blocks take a part of the input together, each from where the one before it ends. -/
def Tiles (data : Bytes) : (start stop : Int) → List Block → Prop
  | start, stop, [] => start = stop
  | start, stop, block :: blocks => ∃ mid, Fills data start mid block ∧ Tiles data mid stop blocks

end

theorem Fills.start_eq {data : Bytes} {start stop : Int} (h : Fills data start stop block) :
    block.frame.start = some start := by
  cases block <;> exact h.1

theorem Fills.le {data : Bytes} {start stop : Int} (h : Fills data start stop block) :
    start + 4 ≤ stop := by
  cases block with
  | plain frame body => exact h.2.2.1
  | library frame blocks =>
    have hle := h.2.2.1
    omega

theorem run_plain {α : Type} {tag : Nat} {start : Int} {content : α} {body : α → Body} :
    run (decodeContent.plain tag start content body window) pos =
      (.ok (plain ⟨some tag, some start, some pos⟩ (body content)), pos) := rfl

theorem plain_eq_ok {α : Type} {tag : Nat} {start : Int} {x : Decoder α} {body : α → Body} :
    run ((x >>= fun a ↦ decodeContent.plain tag start a body) window) pos = (.ok block, pos') ↔
      ∃ a, run (x window) pos = (.ok a, pos') ∧
        block = plain ⟨some tag, some start, some pos'⟩ (body a) := by
  rw [bind_eq_ok]
  simp only [run_plain, Prod.mk.injEq, Except.ok.injEq]
  constructor
  · rintro ⟨a, mid, hx, rfl, rfl⟩
    exact ⟨a, hx, rfl⟩
  · rintro ⟨a, hx, rfl⟩
    exact ⟨a, pos', hx, rfl, rfl⟩

theorem library_eq_ok {nested : Int → Decoder (List Block)} {tag : Nat}
    (h : run (decodeContent nested tag pos .library window) (pos + 4) = (.ok block, pos')) :
    ∃ (longs : Nat) (blocks : List Block),
      run (nested (pos + 8 + longs * 4) window) (pos + 8) = (.ok blocks, pos') ∧
        block = library ⟨some tag, some pos, some pos'⟩ blocks := by
  obtain ⟨longs, mid, hlongs, h⟩ := bind_eq_ok.mp h
  obtain ⟨m, rfl, -, rfl⟩ := word_spends _ _ _ _ hlongs
  obtain ⟨here, mid, hhere, h⟩ := bind_eq_ok.mp h
  rw [run_position] at hhere
  cases hhere
  obtain ⟨_, mid, hinfo, h⟩ := bind_eq_ok.mp h
  rw [run_info] at hinfo
  cases hinfo
  obtain ⟨blocks, mid, hblocks, h⟩ := bind_eq_ok.mp h
  have hfirst : pos + 4 + (4 : Nat) = pos + 8 := by omega
  rw [hfirst] at hblocks
  obtain ⟨here, _, hhere, h⟩ := bind_eq_ok.mp h
  rw [run_position] at hhere
  cases hhere
  have hlast : ∀ place, run ((do return library ⟨some tag, some pos, some (← position)⟩ blocks :
      Decoder Block) window) place = (.ok block, pos') →
      block = library ⟨some tag, some pos, some pos'⟩ blocks ∧ place = pos' := by
    intro place hr
    obtain ⟨stop, _, hstop, hr⟩ := bind_eq_ok.mp hr
    rw [run_position] at hstop
    cases hstop
    obtain ⟨rfl, rfl⟩ := pure_eq_ok.mp hr
    exact ⟨rfl, rfl⟩
  dsimp only at h
  split at h
  · obtain ⟨_, _, hwarn, h⟩ := bind_eq_ok.mp h
    rw [run_warn] at hwarn
    cases hwarn
    obtain ⟨rfl, rfl⟩ := hlast _ h
    exact ⟨longs, blocks, hblocks, rfl⟩
  · obtain ⟨rfl, rfl⟩ := hlast _ h
    exact ⟨longs, blocks, hblocks, rfl⟩

theorem decodeWith_eq_ok {nested : Int → Decoder (List Block)}
    (h : run (decodeWith nested executable window) pos = (.ok block, pos')) :
    ∃ tag kind, run (word window) pos = (.ok tag, pos + 4) ∧ kindOfTag? executable tag = some kind ∧
      run (decodeContent nested tag pos kind window) (pos + 4) = (.ok block, pos') := by
  obtain ⟨start, mid, hstart, h⟩ := bind_eq_ok.mp h
  rw [run_position] at hstart
  cases hstart
  obtain ⟨tag, mid, htag, h⟩ := bind_eq_ok.mp h
  obtain ⟨n, rfl, -, rfl⟩ := word_spends _ _ _ _ htag
  cases hk : kindOfTag? executable tag with
  | none =>
    rw [hk] at h
    cases h
  | some kind =>
    rw [hk] at h
    refine ⟨tag, kind, htag, hk, ?_⟩
    dsimp only at h
    split at h
    · obtain ⟨_, _, hdebug, h⟩ := bind_eq_ok.mp h
      rw [run_debug] at hdebug
      cases hdebug
      obtain ⟨_, _, hdebug, h⟩ := bind_eq_ok.mp h
      rw [run_debug] at hdebug
      cases hdebug
      exact h
    · obtain ⟨_, _, hdebug, h⟩ := bind_eq_ok.mp h
      rw [run_debug] at hdebug
      cases hdebug
      exact h

theorem segment_stored {kind : SegmentKind} {tag : Nat} {content : SegmentContent}
    (h : run (SegmentContent.decode kind tag window) pos = (.ok content, pos')) :
    content.Stored kind window.data pos pos' := by
  obtain ⟨size, mid, hsize, h⟩ := bind_eq_ok.mp h
  obtain ⟨n, rfl, -, rfl⟩ := word_spends _ _ _ _ hsize
  obtain ⟨_, mid, hdebug, h⟩ := bind_eq_ok.mp h
  rw [run_debug] at hdebug
  cases hdebug
  rw [SegmentContent.Stored]
  by_cases hk : kind = .bss
  · rw [if_pos hk] at h ⊢
    obtain ⟨rfl, -⟩ := pure_eq_ok.mp h
    exact ⟨rfl, rfl⟩
  · rw [if_neg hk] at h ⊢
    obtain ⟨start, mid, hstart, h⟩ := bind_eq_ok.mp h
    rw [run_position] at hstart
    cases hstart
    obtain ⟨data, mid, hdata, h⟩ := bind_eq_ok.mp h
    obtain ⟨rfl, rfl⟩ := pure_eq_ok.mp h
    obtain ⟨bytes, mid, hbytes, hdata⟩ := bind_eq_ok.mp hdata
    obtain ⟨rfl, rfl⟩ := pure_eq_ok.mp hdata
    obtain ⟨hpos, hlongs, -, hle, rfl, rfl⟩ := take_eq_ok.mp hbytes
    obtain ⟨place, hplace⟩ := Int.eq_ofNat_of_zero_le hpos
    have hstop : (pos + (4 : Nat) + ((size &&& sizeMask : Nat) : Int) * 4).toNat =
        place + 4 * (size &&& sizeMask) := by omega
    refine ⟨place, size &&& sizeMask, by rw [hplace], rfl, by omega, by omega, by omega, ?_⟩
    rw [hstop, hplace]
    rfl

section Decode

variable {nested : Int → Decoder (List Block)}
  (hn : ∀ stop pos blocks pos', run (nested stop window) pos = (.ok blocks, pos') →
    Tiles window.data pos pos' blocks)
  (hs : ∀ stop, Spends (nested stop) fun n blocks ↦ allSize blocks ≤ n)

include hn hs

theorem decodeContent_fills {tag : Nat} {kind : Kind}
    (h : run (decodeContent nested tag pos kind window) (pos + 4) = (.ok block, pos')) :
    block.Fills window.data pos pos' := by
  obtain ⟨n, hpos', -, -⟩ := decodeContent_spends hs tag pos kind _ _ _ _ h
  have hplain : ∀ body : Body, body.Stored window.data pos pos' →
      (plain ⟨some tag, some pos, some pos'⟩ body).Fills window.data pos pos' :=
    fun body hbody ↦ ⟨rfl, rfl, by omega, hbody⟩
  cases kind with
  | segment kind =>
    obtain ⟨content, hcontent, rfl⟩ := plain_eq_ok.mp h
    have hstored := segment_stored hcontent
    refine hplain _ ?_
    rw [Body.Stored, SegmentContent.Stored]
    rw [SegmentContent.Stored] at hstored
    split
    · rwa [if_pos ‹_›] at hstored
    · rw [if_neg ‹_›] at hstored
      obtain ⟨place, longs, hoffset, hlongs, hstart, hrest⟩ := hstored
      exact ⟨place, longs, hoffset, hlongs, by omega, hrest⟩
  | ending =>
    rw [decodeContent, run_plain] at h
    cases h
    exact hplain _ trivial
  | pause =>
    rw [decodeContent, run_plain] at h
    cases h
    exact hplain _ trivial
  | library =>
    obtain ⟨longs, blocks, hblocks, rfl⟩ := library_eq_ok h
    obtain ⟨k, rfl, -, -⟩ := hs _ _ _ _ _ hblocks
    exact ⟨rfl, rfl, by omega, hn _ _ _ _ hblocks⟩
  | _ =>
    obtain ⟨content, -, rfl⟩ := plain_eq_ok.mp h
    exact hplain _ trivial

theorem decodeWith_fills
    (h : run (decodeWith nested executable window) pos = (.ok block, pos')) :
    block.Fills window.data pos pos' := by
  obtain ⟨tag, kind, -, -, hcontent⟩ := decodeWith_eq_ok h
  exact decodeContent_fills hn hs hcontent

end Decode

/-- Blocks read one after the other tile what was read, up to where no more was found. -/
theorem tiles_of_many {x : Decoder (Option Block)}
    (hstay : ∀ pos pos', run (x window) pos = (.ok none, pos') → pos' = pos)
    (hfill : ∀ pos block pos', run (x window) pos = (.ok (some block), pos') →
      block.Fills window.data pos pos')
    (h : run (many x window) pos = (.ok blocks, pos')) :
    Tiles window.data pos pos' blocks ∧ run (x window) pos' = (.ok none, pos') := by
  obtain ⟨⟨as, _⟩, hmany, rfl⟩ := map_eq_ok.mp h
  replace hmany := (manyWith_eq_ok.mp hmany).2
  clear h
  generalize () = b at hmany
  have hround : ∀ pos mid r, run ((do return (← x).map (·, ()) : Decoder (Option (Block × Unit)))
      window) pos = (.ok r, mid) → ∃ a, run (x window) pos = (.ok a, mid) ∧ a.map (·, ()) = r :=
    fun pos mid r hr ↦ map_eq_ok.mp hr
  induction hmany with
  | stop hr =>
    obtain ⟨a, ha, hnone⟩ := hround _ _ _ hr
    rw [Option.map_eq_none_iff.mp hnone] at ha
    have he := hstay _ _ ha
    subst he
    exact ⟨rfl, ha⟩
  | step hr _ ih =>
    obtain ⟨a, ha, hsome⟩ := hround _ _ _ hr
    obtain ⟨block, rfl, he⟩ := Option.map_eq_some_iff.mp hsome
    cases he
    exact ⟨⟨_, hfill _ _ _ ha, ih.1⟩, ih.2⟩

theorem next?_eq_none {stop : Int} {block : Decoder Block}
    (h : run (next? stop block window) pos = (.ok none, pos')) : pos' = pos := by
  rcases le_or_gt stop pos with hle | hlt
  · rw [run_next?_of_le hle] at h
    exact (Prod.mk.inj h).2.symm
  · rw [run_next?_of_lt hlt] at h
    obtain ⟨_, _, hsome⟩ := map_eq_ok.mp h
    cases hsome

theorem next?_eq_some {stop : Int} {x : Decoder Block}
    (h : run (next? stop x window) pos = (.ok (some block), pos')) :
    run (x window) pos = (.ok block, pos') := by
  rcases le_or_gt stop pos with hle | hlt
  · rw [run_next?_of_le hle] at h
    cases h
  · rw [run_next?_of_lt hlt] at h
    obtain ⟨_, hblock, hsome⟩ := map_eq_ok.mp h
    rwa [Option.some.inj hsome] at hblock

theorem nextOfAll?_eq_none (h : run (nextOfAll? executable window) pos = (.ok none, pos')) :
    pos' = pos ∧ window.stop ≤ pos := by
  rcases le_or_gt window.stop pos with hle | hlt
  · rw [run_nextOfAll?_of_le hle] at h
    exact ⟨(Prod.mk.inj h).2.symm, hle⟩
  · rcases lt_or_ge (window.stop - pos) 4 with hshort | hlong
    · rw [run_nextOfAll?_short hlt hshort] at h
      cases h
    · rw [run_nextOfAll?_of_lt hlong] at h
      obtain ⟨_, _, hsome⟩ := map_eq_ok.mp h
      cases hsome

theorem nextOfAll?_eq_some
    (h : run (nextOfAll? executable window) pos = (.ok (some block), pos')) :
    4 ≤ window.stop - pos ∧
      run (decodeWith (nested executable) executable window) pos = (.ok block, pos') := by
  rcases le_or_gt window.stop pos with hle | hlt
  · rw [run_nextOfAll?_of_le hle] at h
    cases h
  · rcases lt_or_ge (window.stop - pos) 4 with hshort | hlong
    · rw [run_nextOfAll?_short hlt hshort] at h
      cases h
    · rw [run_nextOfAll?_of_lt hlong] at h
      obtain ⟨_, hblock, hsome⟩ := map_eq_ok.mp h
      rw [Option.some.inj hsome] at hblock
      exact ⟨hlong, hblock⟩

theorem decodeNested_tiles {depth : Nat} {stop : Int}
    (h : run (decodeNested executable depth stop window) pos = (.ok blocks, pos')) :
    Tiles window.data pos pos' blocks := by
  induction depth generalizing stop pos blocks pos' with
  | zero => cases h
  | succ depth ih =>
    refine (tiles_of_many (fun pos pos' hr ↦ next?_eq_none hr) (fun pos block pos' hr ↦ ?_) h).1
    exact decodeWith_fills (fun stop pos blocks pos' ↦ ih) (decodeNested_spends depth)
      (next?_eq_some hr)

theorem nested_tiles {stop : Int}
    (h : run (nested executable stop window) pos = (.ok blocks, pos')) :
    Tiles window.data pos pos' blocks := by
  rw [nested_eq_decodeNested (Nat.lt_succ_self _)] at h
  exact decodeNested_tiles h

theorem nextOfAll?_fills
    (h : run (nextOfAll? executable window) pos = (.ok (some block), pos')) :
    block.Fills window.data pos pos' :=
  decodeWith_fills (fun _ _ _ _ ↦ nested_tiles) nested_spends (nextOfAll?_eq_some h).2

theorem tiles_of_decodeAll (hpos : pos ≤ window.stop)
    (h : run (decodeAll executable window) pos = (.ok blocks, pos')) :
    pos' = window.stop ∧ Tiles window.data pos window.stop blocks := by
  obtain ⟨htiles, hlast⟩ := tiles_of_many (fun _ _ hr ↦ (nextOfAll?_eq_none hr).1)
    (fun _ _ _ ↦ nextOfAll?_fills) h
  obtain ⟨n, he, hn, -⟩ := decodeAll_spends _ _ _ _ h
  obtain ⟨-, hle⟩ := nextOfAll?_eq_none hlast
  have hstop : pos' = window.stop := by omega
  exact ⟨hstop, hstop ▸ htiles⟩

/-- Every loop of the reader does what it would do without its bound, and ends; and a library reads
its blocks the way a file does, whatever the depth. -/
structure LoopsEnd (executable : Bool) (window : Window) : Prop where
  libraries : Ends Header.decodeLibrary? window
  groups : Ends RelocGroup.decodeLong? window
  shortGroups : Ends RelocGroup.decodeShort? window
  symbols : Ends SymbolEntry.decode? window
  externals : Ends External.decode? window
  units : ∀ left pos, ∃ units last pos', Loops Index.decodeUnit? window left pos units last pos' ∧
    run (manyWith Index.decodeUnit? left window) pos = (last.map (units, ·), pos')
  nested : ∀ stop, Ends (next? stop (decodeWith (nested executable) executable)) window
  recursion : ∀ stop pos, run (Block.nested executable stop window) pos =
    run (many (next? stop (decodeWith (Block.nested executable) executable)) window) pos

theorem loopsEnd (executable : Bool) (window : Window) : LoopsEnd executable window where
  libraries := Header.decodeLibrary?_takes.ends (by decide) window
  groups := (RelocGroup.decode?_takes 4 _).ends (by decide) window
  shortGroups := (RelocGroup.decode?_takes 2 _).ends (by decide) window
  symbols := SymbolEntry.decode?_takes.ends (by decide) window
  externals := External.decode?_takes.ends (by decide) window
  units left pos := by
    obtain ⟨units, last, pos', hloop, -, hrun⟩ :=
      manyWith_loops Index.decodeUnit?_takes (by decide) left pos
    exact ⟨units, last, pos', hloop, hrun⟩
  nested stop := (nested_takes stop).ends (by decide) window
  recursion stop _ := nested_eq stop

theorem decodeAll_repeats (executable : Bool) (window : Window) (pos : Int) :
    ∃ blocks last pos', Repeats (nextOfAll? executable) window pos blocks last pos' ∧
      4 * blocks.length ≤ (window.stop - pos).toNat ∧
      run (decodeAll executable window) pos = (last.map fun _ ↦ blocks, pos') :=
  many_repeats nextOfAll?_takes (by decide) pos

/-- Reading a part of the input ends after a block for every four bytes of it at most, and blocks that
were read tile it. -/
theorem decodeAll_tiles (executable : Bool) (data : Bytes) {offset stop : Nat}
    (ho : offset ≤ stop) :
    LoopsEnd executable (.ofBytes data (some stop)) ∧
      (∃ blocks last pos',
        Repeats (nextOfAll? executable) (.ofBytes data (some stop)) offset blocks last pos' ∧
        4 * blocks.length ≤ stop - offset ∧
        run (decodeAll executable (.ofBytes data (some stop))) offset =
          (last.map fun _ ↦ blocks, pos')) ∧
      ∀ blocks, (decodeAll executable (.ofBytes data (some stop)) offset).result = .ok blocks →
        Tiles data offset stop blocks := by
  refine ⟨loopsEnd executable _, ?_, fun blocks h ↦ ?_⟩
  · obtain ⟨blocks, last, pos', hloop, hlength, hrun⟩ := decodeAll_repeats executable
      (.ofBytes data (some stop)) offset
    have hstop : (Window.ofBytes data (some stop)).stop = stop := rfl
    rw [hstop] at hlength
    exact ⟨blocks, last, pos', hloop, by omega, hrun⟩
  · have hpos : (offset : Int) ≤ (Window.ofBytes data (some stop)).stop := Int.ofNat_le.mpr ho
    exact (tiles_of_decodeAll hpos (Action.result_eq h)).2

/-- A unit without a name and a library with code in it, between bytes that are no blocks. -/
def embedded : Bytes :=
  ([0xff, 0xff] ++ Bytes.long 999 ++ Bytes.long 0 ++ Bytes.long 1018 ++ Bytes.long 3 ++
    Bytes.long 1001 ++ Bytes.long 1 ++ [0x4e, 0x75, 0x4e, 0x75] ++ [0xff]).toArray

def embeddedBlocks : List Block :=
  [plain ⟨some 999, some 2, some 10⟩ (.unit ""),
    library ⟨some 1018, some 10, some 30⟩
      [plain ⟨some 1001, some 18, some 30⟩
        (.segment .code ⟨1, 0, some 26, some #[0x4e, 0x75, 0x4e, 0x75]⟩)]]

theorem decodeAll_tiles_embedded : 2 ≤ 30 ∧ 30 < embedded.size ∧
    (∃ blocks last pos',
      Repeats (nextOfAll? false) (.ofBytes embedded (some 30)) 2 blocks last pos' ∧
      4 * blocks.length ≤ 30 - 2 ∧
      run (decodeAll false (.ofBytes embedded (some 30))) 2 = (last.map fun _ ↦ blocks, pos')) ∧
    (decodeAll false (.ofBytes embedded (some 30)) 2).result = .ok embeddedBlocks ∧
    Tiles embedded 2 30 embeddedBlocks := by
  have ho : 2 ≤ 30 := by decide
  obtain ⟨-, hends, htiles⟩ := decodeAll_tiles false embedded ho
  have hread : (decodeAll false (.ofBytes embedded (some 30)) 2).result = .ok embeddedBlocks := rfl
  exact ⟨ho, by decide, hends, hread, htiles _ hread⟩

end Block

end Hunks
