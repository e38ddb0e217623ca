import Mathlib
import Hunks.Proofs.Block.Locality
import Hunks.Proofs.Block.Tiles

namespace Hunks

open Decoder
open Hunks.Action (run)

namespace Block

variable {executable : Bool} {part whole : Window} {shift : Nat} {pos pos' : Int}
  {blocks : List Block}

theorem nextOfAll?_takes_one : Takes 1 (nextOfAll? executable) := nextOfAll?_takes.mono (by decide)

/-- Of blocks that tile a part of the input, none starts in front of it. -/
theorem Tiles.le_start {data : Bytes} {start stop : Int} (h : Tiles data start stop blocks) :
    ∀ block ∈ blocks, ∃ place, block.frame.start = some place ∧ start ≤ place := by
  induction blocks generalizing start with
  | nil => simp
  | cons block blocks ih =>
    obtain ⟨mid, hblock, hrest⟩ := h
    have hle := hblock.le
    intro other hm
    rcases List.mem_cons.mp hm with rfl | hm
    · exact ⟨start, hblock.start_eq, le_rfl⟩
    · obtain ⟨place, hplace, hmid⟩ := ih hrest other hm
      exact ⟨place, hplace, by omega⟩

theorem Tiles.start_ne {data : Bytes} {start stop place : Int} (h : Tiles data start stop blocks)
    (hlt : place < start) : ∀ block ∈ blocks, block.frame.start ≠ some place := by
  intro block hm he
  obtain ⟨place', hplace, hle⟩ := h.le_start block hm
  rw [hplace] at he
  cases he
  omega

theorem block_part (hp : part.PartOf whole 0) (hpos : 0 ≤ pos) {block : Block}
    (h : run (decodeWith (nested executable) executable whole) pos = (.ok block, pos')) :
    run (decodeWith (nested executable) executable part) pos = (.ok block, pos') ∨
      part.stop < pos' ∧ ∃ e last,
        run (decodeWith (nested executable) executable part) pos = (.error e, last) ∧
          e.kind = .unexpectedEnd := by
  have hfollows : Follows part whole 0 (decodeWith (nested executable) executable) _ _ :=
    block_follows hp
  have hmatch := hfollows.run pos hpos
  rw [Nat.cast_zero, Int.add_zero, h] at hmatch
  rcases hmatch.of_ok with hr | ⟨hlate, hr⟩
  · rw [Int.neg_zero, move_zero, Nat.cast_zero, Int.sub_zero] at hr
    exact .inl hr
  · rw [Nat.cast_zero, Int.add_zero] at hlate
    exact .inr ⟨hlate, hr⟩

/-- The blocks in front of the end of a part, if it ends where a block starts; and that it ends too
early otherwise. -/
theorem decodeAll_part (hp : part.PartOf whole 0) (hlt : part.stop < whole.stop) (hpos : 0 ≤ pos)
    (hle : pos ≤ part.stop) (h : run (decodeAll executable whole) pos = (.ok blocks, pos')) :
    (∃ done block rest, blocks = done ++ block :: rest ∧ block.frame.start = some part.stop ∧
      run (decodeAll executable part) pos = (.ok done, part.stop)) ∨
    ((∀ block ∈ blocks, block.frame.start ≠ some part.stop) ∧
      ∃ e last, run (decodeAll executable part) pos = (.error e, last) ∧
        e.kind = .unexpectedEnd) := by
  induction blocks generalizing pos with
  | nil =>
    obtain ⟨-, hend⟩ := nextOfAll?_eq_none (many_eq_nil nextOfAll?_takes_one h)
    omega
  | cons block rest ih =>
    obtain ⟨mid, hblock, hrest⟩ := many_eq_cons nextOfAll?_takes_one h
    obtain ⟨hlong, hwith⟩ := nextOfAll?_eq_some hblock
    have hfills := nextOfAll?_fills hblock
    have hmid := hfills.le
    have hstart := hfills.start_eq
    obtain ⟨-, hmidStop⟩ := nextOfAll?_takes.answer (by decide) hblock
    have htiles := (tiles_of_decodeAll hmidStop hrest).2
    rcases eq_or_lt_of_le hle with rfl | hin
    · exact .inl ⟨[], block, rest, rfl, hstart,
        run_many_none nextOfAll?_takes_one (run_nextOfAll?_of_le le_rfl)⟩
    have hne : block.frame.start ≠ some part.stop := by
      rw [hstart]
      intro he
      cases he
      omega
    rcases lt_or_ge (part.stop - pos) 4 with hshort | hroom
    · refine .inr ⟨List.forall_mem_cons.mpr ⟨hne, htiles.start_ne (by omega)⟩, _, _,
        run_many_error nextOfAll?_takes_one (run_nextOfAll?_short hin hshort), rfl⟩
    have hnext : run (nextOfAll? executable part) pos = _ := run_nextOfAll?_of_lt hroom
    rw [run_map] at hnext
    rcases block_part hp hpos hwith with hr | ⟨hpast, e, last, hr, hkind⟩
    · rw [hr] at hnext
      have hin' := (nextOfAll?_takes.answer (by decide) hnext).2
      have hpart := run_many_some nextOfAll?_takes_one hnext
      rcases ih (by omega) hin' hrest with ⟨done, next, rest', rfl, hnextStart, hdone⟩ |
        ⟨hstarts, e, last, herror, hkind⟩
      · refine .inl ⟨block :: done, next, rest', rfl, hnextStart, hpart.trans ?_⟩
        rw [← decodeAll_eq, hdone]
        rfl
      · refine .inr ⟨List.forall_mem_cons.mpr ⟨hne, hstarts⟩, e, last, hpart.trans ?_, hkind⟩
        rw [← decodeAll_eq, herror]
        rfl
    · rw [hr] at hnext
      exact .inr ⟨List.forall_mem_cons.mpr ⟨hne, htiles.start_ne hpast⟩, e, last,
        run_many_error nextOfAll?_takes_one hnext, hkind⟩

theorem partOf_extract (data : Bytes) (k : Nat) :
    (Window.ofBytes (data.extract 0 k) none).PartOf (.ofBytes data none) 0 where
  size := le_rfl
  wholeSize := le_rfl
  stop := by simp [Window.ofBytes]
  bytes i hi := by
    simp only [Window.ofBytes, Option.getD_none, Array.size_extract, Nat.cast_lt] at hi ⊢
    rw [Array.getElem?_extract, if_pos (by omega), Nat.zero_add, Nat.add_zero]

/-- A file cut off where a block starts reads as the blocks in front of it, and one cut off anywhere
else ends unexpectedly. -/
theorem decodeAll_truncated {data : Bytes} {k : Nat}
    (h : (decodeAll executable (.ofBytes data none) 0).result = .ok blocks) (hk : k < data.size) :
    (∃ done block rest, blocks = done ++ block :: rest ∧ block.frame.start = some (k : Int) ∧
      (decodeAll executable (.ofBytes (data.extract 0 k) none) 0).result = .ok done) ∨
    ((∀ block ∈ blocks, block.frame.start ≠ some (k : Int)) ∧
      ∃ e, (decodeAll executable (.ofBytes (data.extract 0 k) none) 0).result = .error e ∧
        e.kind = .unexpectedEnd) := by
  have hstop : (Window.ofBytes (data.extract 0 k) none).stop = (k : Int) := by
    simp only [Window.ofBytes, Option.getD_none, Array.size_extract]
    omega
  have hwhole : (Window.ofBytes data none).stop = (data.size : Int) := rfl
  have hpart := decodeAll_part (partOf_extract data k) (by omega) le_rfl (by omega)
    (Action.result_eq h)
  rw [hstop] at hpart
  rcases hpart with ⟨done, block, rest, hblocks, hstart, hdone⟩ | ⟨hstarts, e, last, he, hkind⟩
  · exact .inl ⟨done, block, rest, hblocks, hstart, congrArg Prod.fst hdone⟩
  · exact .inr ⟨hstarts, e, congrArg Prod.fst he, hkind⟩

/-- A library with code in it, and the end of a hunk behind it. -/
def closed : Bytes :=
  (Bytes.long 1018 ++ Bytes.long 3 ++ Bytes.long 1001 ++ Bytes.long 1 ++ [0x4e, 0x75, 0x4e, 0x75] ++
    Bytes.long 1010).toArray

def closedBlocks : List Block :=
  [library ⟨some 1018, some 0, some 20⟩
      [plain ⟨some 1001, some 8, some 20⟩
        (.segment .code ⟨1, 0, some 16, some #[0x4e, 0x75, 0x4e, 0x75]⟩)],
    plain ⟨some 1010, some 20, some 24⟩ .ending]

theorem decodeAll_truncated_closed :
    (decodeAll false (.ofBytes closed none) 0).result = .ok closedBlocks ∧ 18 < closed.size ∧
      (∀ block ∈ closedBlocks, block.frame.start ≠ some ((18 : Nat) : Int)) ∧
      ∃ e, (decodeAll false (.ofBytes (closed.extract 0 18) none) 0).result = .error e ∧
        e.kind = .unexpectedEnd := by
  have hread : (decodeAll false (.ofBytes closed none) 0).result = .ok closedBlocks := rfl
  have hk : 18 < closed.size := by decide
  have hstarts : ∀ block ∈ closedBlocks, block.frame.start ≠ some ((18 : Nat) : Int) := by
    simp [closedBlocks, frame]
  rcases decodeAll_truncated hread hk with ⟨done, block, rest, hblocks, hstart, -⟩ | h
  · exact absurd hstart (hstarts block (by rw [hblocks]; simp))
  · exact ⟨hread, hk, h⟩

section Append

variable {a b : Bytes} {A : List Block}

/-- The blocks of a part are the first ones of the whole, which goes on from where the part ends. -/
theorem decodeAll_first (hp : part.PartOf whole shift) (hpos : 0 ≤ pos) (hle : pos ≤ part.stop)
    (h : run (decodeAll executable part) pos = (.ok blocks, pos')) :
    run (decodeAll executable whole) (pos + shift) =
      ((run (decodeAll executable whole) (part.stop + shift)).1.map (allMoved shift blocks ++ ·),
        (run (decodeAll executable whole) (part.stop + shift)).2) := by
  induction blocks generalizing pos with
  | nil =>
    obtain ⟨-, hend⟩ := nextOfAll?_eq_none (many_eq_nil nextOfAll?_takes_one h)
    obtain rfl := le_antisymm hle hend
    rcases run (decodeAll executable whole) (part.stop + shift) with ⟨_ | _, _⟩ <;> rfl
  | cons block rest ih =>
    obtain ⟨mid, hblock, hrest⟩ := many_eq_cons nextOfAll?_takes_one h
    obtain ⟨hlong, hwith⟩ := nextOfAll?_eq_some hblock
    obtain ⟨-, hstop⟩ := nextOfAll?_takes.answer (by decide) hblock
    have hfollows : Follows part whole shift (decodeWith (nested executable) executable) _ _ :=
      block_follows hp
    have hmatch := hfollows.run pos hpos
    rw [hwith] at hmatch
    obtain ⟨block', rfl, hwhole, hmid⟩ := hmatch.ok_left
    have hroom : 4 ≤ whole.stop - (pos + shift) := by
      have hwholeStop := hp.stop
      omega
    have hnext : run (nextOfAll? executable whole) (pos + shift) = _ := run_nextOfAll?_of_lt hroom
    rw [run_map, hwhole] at hnext
    have hsome := run_many_some nextOfAll?_takes_one hnext
    rw [← decodeAll_eq, ih hmid hstop hrest] at hsome
    rw [hsome, allMoved, move_back]
    rcases run (decodeAll executable whole) (part.stop + shift) with ⟨_ | _, _⟩ <;> rfl

theorem nextOfAll?_follows (hp : part.PartOf whole shift) (hstop : part.stop + shift = whole.stop) :
    Follows part whole shift (nextOfAll? executable) (nextOfAll? executable)
      (Option.map (move (-shift))) := by
  refine ⟨fun pos r pos' h ↦ ?_, fun pos hpos ↦ ?_⟩
  · obtain ⟨n, rfl, -, -⟩ := nextOfAll?_takes _ _ _ _ h
    omega
  · rcases le_or_gt part.stop pos with hle | hlt
    · rw [run_nextOfAll?_of_le hle, run_nextOfAll?_of_le (by omega)]
      exact .ok (b := none) hpos
    · rcases lt_or_ge (part.stop - pos) 4 with hshort | hroom
      · rw [run_nextOfAll?_short hlt hshort, run_nextOfAll?_short (by omega) (by omega)]
        exact .fail rfl
      · rw [run_nextOfAll?_of_lt hroom, run_nextOfAll?_of_lt (by omega)]
        have hblock : Follows part whole shift (some <$> decodeWith (nested executable) executable)
            (some <$> decodeWith (nested executable) executable) (Option.map (move (-shift))) :=
          (block_follows hp).map fun _ ↦ rfl
        exact hblock.run pos hpos

theorem decodeAll_follows (hp : part.PartOf whole shift) (hstop : part.stop + shift = whole.stop) :
    Follows part whole shift (decodeAll executable) (decodeAll executable)
      (List.map (move (-shift))) :=
  .many nextOfAll?_takes_one nextOfAll?_takes_one (nextOfAll?_follows hp hstop)

theorem partOf_append {p q : Bytes} {stop : Nat} (hs : p.size + a.size ≤ stop)
    (hq : stop ≤ (p ++ a ++ q).size) :
    (Window.ofBytes a none).PartOf (.ofBytes (p ++ a ++ q) (some (stop : Int))) p.size where
  size := le_rfl
  wholeSize := Int.ofNat_le.mpr hq
  stop := by
    simp only [Window.ofBytes, Option.getD_none, Option.getD_some]
    omega
  bytes i hi := by
    simp only [Window.ofBytes, Option.getD_none, Nat.cast_lt] at hi ⊢
    rw [Array.getElem?_append_left (by rw [Array.size_append]; omega),
      Array.getElem?_append_right (by omega), Nat.add_sub_cancel]

/-- Two files one after the other, with other bytes around them. -/
def around (p a b q : Bytes) : Window :=
  .ofBytes (p ++ a ++ b ++ q) (some ((p.size + a.size + b.size : Nat) : Int))

theorem partOf_around_left (p a b q : Bytes) :
    (Window.ofBytes a none).PartOf (around p a b q) p.size := by
  have h : (Window.ofBytes a none).PartOf (.ofBytes (p ++ a ++ (b ++ q))
      (some ((p.size + a.size + b.size : Nat) : Int))) p.size := by
    refine partOf_append (Nat.le_add_right _ _) ?_
    simp only [Array.size_append]
    omega
  rwa [← Array.append_assoc] at h

theorem partOf_around_right (p a b q : Bytes) :
    (Window.ofBytes b none).PartOf (around p a b q) (p.size + a.size) := by
  have h : (Window.ofBytes b none).PartOf (around p a b q) (p ++ a).size := by
    refine partOf_append (by rw [Array.size_append]) ?_
    simp only [Array.size_append]
    omega
  rwa [Array.size_append] at h

theorem run_around (p b q : Bytes)
    (ha : (decodeAll executable (.ofBytes a none) 0).result = .ok A) :
    run (decodeAll executable (around p a b q)) p.size =
      ((run (decodeAll executable (around p a b q)) (0 + ((p.size + a.size : Nat) : Int))).1.map
          (allMoved p.size A ++ ·),
        (run (decodeAll executable (around p a b q)) (0 + ((p.size + a.size : Nat) : Int))).2) := by
  have hrun := decodeAll_first (partOf_around_left p a b q) le_rfl (Int.natCast_nonneg a.size)
    (Action.result_eq ha)
  have hjoin : (Window.ofBytes a none).stop + (p.size : Int) = 0 + ((p.size + a.size : Nat) : Int) := by
    simp only [Window.ofBytes, Option.getD_none]
    omega
  rwa [hjoin, Int.zero_add (p.size : Int)] at hrun

theorem around_follows (executable : Bool) (p a b q : Bytes) :
    (Window.ofBytes b none).stop + ((p.size + a.size : Nat) : Int) = (around p a b q).stop ∧
      Follows (.ofBytes b none) (around p a b q) (p.size + a.size) (decodeAll executable)
        (decodeAll executable) (List.map (move (-((p.size + a.size : Nat) : Int)))) := by
  have hstop : (Window.ofBytes b none).stop + ((p.size + a.size : Nat) : Int) =
      (around p a b q).stop := by
    simp only [around, Window.ofBytes, Option.getD_none, Option.getD_some]
    omega
  exact ⟨hstop, decodeAll_follows (partOf_around_right p a b q) hstop⟩

/-- Two files one after the other, with any bytes around them, read as the blocks of the one and then
of the other, each moved to where its file lies; and fail as the second one does. -/
theorem decodeAll_append (p b q : Bytes)
    (ha : (decodeAll executable (.ofBytes a none) 0).result = .ok A) :
    (∀ B, (decodeAll executable (.ofBytes b none) 0).result = .ok B →
      (decodeAll executable (.ofBytes (p ++ a ++ b ++ q)
        (some ((p.size + a.size + b.size : Nat) : Int))) p.size).result =
          .ok (allMoved p.size A ++ allMoved ((p.size + a.size : Nat) : Int) B)) ∧
    ∀ e, (decodeAll executable (.ofBytes b none) 0).result = .error e →
      ∃ e', (decodeAll executable (.ofBytes (p ++ a ++ b ++ q)
        (some ((p.size + a.size + b.size : Nat) : Int))) p.size).result = .error e' ∧
          e'.kind = e.kind := by
  have hrun := run_around p b q ha
  obtain ⟨hstop, hfollows⟩ := around_follows executable p a b q
  have hrest := hfollows.run 0 le_rfl
  constructor
  · intro B hB
    rw [Action.result_eq hB] at hrest
    obtain ⟨B', rfl, hB', -⟩ := hrest.ok_left
    rw [hB'] at hrun
    refine (congrArg Prod.fst hrun).trans ?_
    rw [← allMoved_eq, allMoved_allMoved, Int.add_left_neg, allMoved_zero]
    rfl
  · intro e he
    rw [Action.result_eq he] at hrest
    obtain ⟨e', last, he', hkind⟩ := hrest.error_left hstop
    rw [he'] at hrun
    exact ⟨e', congrArg Prod.fst hrun, hkind⟩

theorem decodeAll_append_closed :
    (decodeAll false (.ofBytes closed none) 0).result = .ok closedBlocks ∧
      (decodeAll false (.ofBytes (Bytes.long 1010).toArray none) 0).result =
        .ok [plain ⟨some 1010, some 0, some 4⟩ .ending] ∧
      (decodeAll false (.ofBytes (#[0xff] ++ closed ++ (Bytes.long 1010).toArray ++ #[0xff])
        (some 29)) 1).result = .ok [
          library ⟨some 1018, some 1, some 21⟩
            [plain ⟨some 1001, some 9, some 21⟩
              (.segment .code ⟨1, 0, some 17, some #[0x4e, 0x75, 0x4e, 0x75]⟩)],
          plain ⟨some 1010, some 21, some 25⟩ .ending,
          plain ⟨some 1010, some 25, some 29⟩ .ending] := by
  have ha : (decodeAll false (.ofBytes closed none) 0).result = .ok closedBlocks := rfl
  have hb : (decodeAll false (.ofBytes (Bytes.long 1010).toArray none) 0).result =
    .ok [plain ⟨some 1010, some 0, some 4⟩ .ending] := rfl
  exact ⟨ha, hb, (decodeAll_append #[0xff] (Bytes.long 1010).toArray #[0xff] ha).1 _ hb⟩

end Append

end Block

end Hunks
