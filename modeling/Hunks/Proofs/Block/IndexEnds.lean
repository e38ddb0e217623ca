import Mathlib
import Hunks.Proofs.Block.Tiles
import Hunks.Proofs.Bytes.Span

namespace Hunks

open Decoder
open Hunks.Action (run)

namespace Decoder

variable {α : Type} {window : Window} {pos pos' : Int}

/-- Each answer of a repeated decoder was given somewhere in the window. -/
theorem mem_of_many {x : Decoder (Option α)} {as : List α}
    (h : run (many x window) pos = (.ok as, pos')) :
    ∀ a ∈ as, ∃ place place', run (x window) place = (.ok (some a), place') := by
  obtain ⟨⟨found, _⟩, hmany, rfl⟩ := map_eq_ok.mp h
  replace hmany := (manyWith_eq_ok.mp hmany).2
  clear h
  dsimp only
  generalize () = b at hmany
  induction hmany with
  | stop => simp
  | step hr _ ih =>
    obtain ⟨a, ha, hsome⟩ := map_eq_ok.mp hr
    obtain ⟨_, rfl, he⟩ := Option.map_eq_some_iff.mp hsome
    cases he
    exact List.forall_mem_cons.mpr ⟨⟨_, _, ha⟩, ih⟩

theorem word_eq_ok {n : Nat} (h : run (word window) pos = (.ok n, pos')) :
    0 ≤ pos ∧ pos' = pos + 4 ∧ Bytes.field? window.data pos 4 = some n := by
  obtain ⟨bytes, _, htake, h⟩ := bind_eq_ok.mp h
  obtain ⟨rfl, rfl⟩ := pure_eq_ok.mp h
  obtain ⟨hpos, -, -, hsize, rfl, rfl⟩ := take_eq_ok.mp htake
  refine ⟨hpos, rfl, ?_⟩
  rw [Bytes.field?_eq hpos (by exact_mod_cast hsize), Bytes.field, Bytes.sub]
  simp only
  rw [show (pos + (4 : Nat)).toNat = pos.toNat + 4 by omega]

end Decoder

namespace Block

variable {executable : Bool} {window : Window} {pos pos' : Int} {block : Block} {blocks : List Block}
  {frame : Frame} {body : Body} {index : Index}

mutual

/-- The blocks that hold no others, however deep they lie. -/
def leaves : Block → List (Frame × Body)
  | plain frame body => [(frame, body)]
  | library _ blocks => allLeaves blocks

def allLeaves : List Block → List (Frame × Body)
  | [] => []
  | block :: blocks => block.leaves ++ allLeaves blocks

end

theorem mem_allLeaves : (frame, body) ∈ allLeaves blocks ↔
    ∃ block ∈ blocks, (frame, body) ∈ block.leaves := by
  induction blocks with
  | nil => simp [allLeaves]
  | cons block blocks ih => simp [allLeaves, ih]

/-- The content of a block was read behind its tag, whatever may read the blocks of a library. -/
def IsRead (executable : Bool) (window : Window) (frame : Frame) (body : Body) : Prop :=
  ∃ (nested : Int → Decoder (List Block)) (tag : Nat) (start stop : Int) (kind : Kind),
    frame = ⟨some tag, some start, some stop⟩ ∧ kindOfTag? executable tag = some kind ∧
      run (word window) start = (.ok tag, start + 4) ∧
      run (decodeContent nested tag start kind window) (start + 4) = (.ok (plain frame body), stop)

theorem decodeContent_plain {nested : Int → Decoder (List Block)} {tag : Nat} {kind : Kind}
    (hk : kind ≠ .library)
    (h : run (decodeContent nested tag pos kind window) (pos + 4) = (.ok block, pos')) :
    ∃ body, block = plain ⟨some tag, some pos, some pos'⟩ body := by
  cases kind with
  | library => exact absurd rfl hk
  | ending =>
    rw [decodeContent, run_plain] at h
    cases h
    exact ⟨_, rfl⟩
  | pause =>
    rw [decodeContent, run_plain] at h
    cases h
    exact ⟨_, rfl⟩
  | _ =>
    obtain ⟨content, -, rfl⟩ := plain_eq_ok.mp h
    exact ⟨_, rfl⟩

section Decode

variable {nested : Int → Decoder (List Block)}
  (hn : ∀ stop pos blocks pos', run (nested stop window) pos = (.ok blocks, pos') →
    ∀ frame body, (frame, body) ∈ allLeaves blocks → IsRead executable window frame body)

include hn

theorem decodeWith_leaves (h : run (decodeWith nested executable window) pos = (.ok block, pos'))
    (hm : (frame, body) ∈ block.leaves) : IsRead executable window frame body := by
  obtain ⟨tag, kind, htag, hkind, hcontent⟩ := decodeWith_eq_ok h
  by_cases hk : kind = .library
  · subst hk
    obtain ⟨longs, blocks, hblocks, rfl⟩ := library_eq_ok hcontent
    exact hn _ _ _ _ hblocks frame body hm
  · obtain ⟨content, rfl⟩ := decodeContent_plain hk hcontent
    cases List.mem_singleton.mp hm
    exact ⟨nested, tag, pos, pos', kind, rfl, hkind, htag, hcontent⟩

end Decode

theorem nested_leaves {stop : Int} (h : run (nested executable stop window) pos = (.ok blocks, pos'))
    (hm : (frame, body) ∈ allLeaves blocks) : IsRead executable window frame body := by
  rw [nested_eq_decodeNested (Nat.lt_succ_self _)] at h
  revert h hm
  generalize ((window.stop - pos).toNat / 8).succ = depth
  intro h hm
  induction depth generalizing stop pos blocks pos' frame body with
  | zero => cases h
  | succ depth ih =>
    obtain ⟨block, hblock, hleaf⟩ := mem_allLeaves.mp hm
    obtain ⟨place, place', hr⟩ := mem_of_many h block hblock
    exact decodeWith_leaves (fun _ _ _ _ hblocks _ _ hm ↦ ih hblocks hm) (next?_eq_some hr) hleaf

theorem decodeAll_leaves (h : run (decodeAll executable window) pos = (.ok blocks, pos'))
    (hm : (frame, body) ∈ allLeaves blocks) : IsRead executable window frame body := by
  obtain ⟨block, hblock, hleaf⟩ := mem_allLeaves.mp hm
  obtain ⟨place, place', hr⟩ := mem_of_many h block hblock
  exact decodeWith_leaves (fun _ _ _ _ hblocks _ _ hm ↦ nested_leaves hblocks hm)
    (nextOfAll?_eq_some hr).2 hleaf

/-- What an index takes behind its long word is settled by the larger one of its two sizes. -/
theorem IsRead.index_ends (h : IsRead executable window frame (.index index)) :
    ∃ (start : Int) (longs : Nat), 0 ≤ start ∧ frame.start = some start ∧
      Bytes.field? window.data (start + 4) 4 = some longs ∧
      frame.stop = some (start + 8 + 2 * max (2 * longs) index.shortCount) := by
  obtain ⟨nested, tag, start, stop, kind, rfl, hkind, htag, hcontent⟩ := h
  cases kind with
  | index =>
    obtain ⟨_, hdecode, heq⟩ := plain_eq_ok.mp hcontent
    cases heq
    rw [Index.decode_eq] at hdecode
    obtain ⟨longs, mid, hlongs, htables⟩ := bind_eq_ok.mp hdecode
    obtain ⟨hplace, rfl, hfield⟩ := word_eq_ok hlongs
    obtain ⟨n, rfl, -, hn⟩ := Index.decodeTables_spends longs _ _ _ _ htables
    refine ⟨start, longs, (word_eq_ok htag).1, rfl, hfield, congrArg some ?_⟩
    omega
  | library =>
    obtain ⟨longs, blocks, -, heq⟩ := library_eq_ok hcontent
    cases heq
  | ending =>
    rw [decodeContent, run_plain] at hcontent
    cases hcontent
  | pause =>
    rw [decodeContent, run_plain] at hcontent
    cases hcontent
  | _ =>
    obtain ⟨content, -, heq⟩ := plain_eq_ok.mp hcontent
    cases heq

/-- No index ends in front of what its long word tells, and one whose string table and units fit into
its long words ends just there. What does not fit is read on from the blocks behind. -/
theorem decodeAll_index_ends {data : Bytes} {stop : Option Int}
    (h : (decodeAll executable (.ofBytes data stop) pos).result = .ok blocks)
    (hm : (frame, .index index) ∈ allLeaves blocks) :
    ∃ (start : Int) (longs : Nat), 0 ≤ start ∧ frame.start = some start ∧
      Bytes.field? data (start + 4) 4 = some longs ∧
      frame.stop = some (start + 8 + 2 * max (2 * longs) index.shortCount) ∧
      (frame.stop = some (start + 8 + 4 * longs) ↔ index.shortCount ≤ 2 * longs) := by
  obtain ⟨start, longs, hstart, hframe, hlongs, hstop⟩ :=
    (decodeAll_leaves (Action.result_eq h) hm).index_ends
  refine ⟨start, longs, hstart, hframe, hlongs, hstop, ?_⟩
  rw [hstop, Option.some.injEq]
  omega

/-- A library that holds an index with a string of one letter and a unit without hunks, and an empty
index behind it. -/
def indexed : Bytes :=
  (Bytes.long 1018 ++ Bytes.long 5 ++ Bytes.long 1019 ++ Bytes.long 3 ++
    [0, 1, 0x61, 0, 0, 0, 0, 0, 0, 0, 0, 0] ++ Bytes.long 1019 ++ Bytes.long 1 ++ [0, 0, 0, 0]).toArray

def indexedBlocks : List Block :=
  [library ⟨some 1018, some 0, some 28⟩
      [plain ⟨some 1019, some 8, some 28⟩ (.index ⟨#[0x61], [⟨0, 0, []⟩]⟩)],
    plain ⟨some 1019, some 28, some 40⟩ (.index ⟨#[], []⟩)]

theorem decodeAll_index_ends_indexed :
    (decodeAll false (.ofBytes indexed none) 0).result = .ok indexedBlocks ∧
      ∃ (start : Int) (longs : Nat), some 8 = some start ∧
        Bytes.field? indexed (start + 4) 4 = some longs ∧ some 28 = some (start + 8 + 4 * longs) := by
  have h : (decodeAll false (.ofBytes indexed none) 0).result = .ok indexedBlocks := rfl
  have hm : ((⟨some 1019, some 8, some 28⟩, .index ⟨#[0x61], [⟨0, 0, []⟩]⟩) : Frame × Body) ∈
      allLeaves indexedBlocks := by decide
  obtain ⟨start, longs, -, hstart, hlongs, -, hiff⟩ := decodeAll_index_ends h hm
  cases hstart
  have hthree : Bytes.field? indexed 12 4 = some 3 := rfl
  cases hthree.symm.trans hlongs
  exact ⟨h, 8, 3, rfl, hlongs, hiff.mpr (by decide)⟩

/-- A library without blocks, and an index of two long words whose last two short words begin a unit. -/
def overrun : Bytes :=
  (Bytes.long 1018 ++ Bytes.long 0 ++ Bytes.long 1019 ++ Bytes.long 2 ++
    [0, 2, 0x61, 0x62, 0, 0, 0, 0, 0, 0] ++ Bytes.long 1010).toArray

/-- An index of two long words with a unit that counts one hunk, and code behind it. -/
def swallowed : Bytes :=
  (Bytes.long 1019 ++ Bytes.long 2 ++ [0, 0, 0, 0, 0, 0, 0, 1] ++ Bytes.long 1001 ++ Bytes.long 1 ++
    [0x4e, 0x71, 0, 0] ++ Bytes.long 1010).toArray

/-- Both indices tell that they end after sixteen bytes. The one ends two bytes behind that, the other one
takes the block behind it for the hunk of its unit. -/
theorem index_overruns :
    (decodeAll false (.ofBytes overrun none) 0).result = .ok
        [library ⟨some 1018, some 0, some 8⟩ [],
          plain ⟨some 1019, some 8, some 26⟩ (.index ⟨#[0x61, 0x62], [⟨0, 0, []⟩]⟩),
          plain ⟨some 1010, some 26, some 30⟩ .ending] ∧
      Bytes.field? overrun 12 4 = some 2 ∧ (26 : Int) ≠ 8 + 8 + 4 * 2 ∧
      (decodeAll false (.ofBytes swallowed none) 0).result = .ok
        [plain ⟨some 1019, some 0, some 28⟩
            (.index ⟨#[], [⟨0, 0, [⟨0, 1001, 0, [0x4e71], []⟩]⟩]⟩),
          plain ⟨some 1010, some 28, some 32⟩ .ending] ∧
      (decodeAll false (.ofBytes swallowed none) 16).result = .ok
        [plain ⟨some 1001, some 16, some 28⟩ (.segment .code ⟨1, 0, some 24, some #[0x4e, 0x71, 0, 0]⟩),
          plain ⟨some 1010, some 28, some 32⟩ .ending] ∧
      Bytes.field? swallowed 4 4 = some 2 ∧ (28 : Int) ≠ 0 + 8 + 4 * 2 :=
  ⟨rfl, rfl, by decide, rfl, rfl, rfl, by decide⟩

end Block

end Hunks
