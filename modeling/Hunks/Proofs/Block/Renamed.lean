import Mathlib
import Hunks.Load
import Hunks.Proofs.Block.Windows
import Hunks.Proofs.Parallel

namespace Hunks

open Decoder
open Hunks.Action (run Akin Kindred Parallel)

/-- Two strings for the name of a hunk: one string twice, or two that are not empty and that nobody
knows. -/
def Alias (known : String → Prop) (name name' : String) : Prop :=
  name = name' ∨ (name ≠ "" ∧ ¬ known name) ∧ name' ≠ "" ∧ ¬ known name'

/-- One content twice, but for the string of a name and the place that the data of a segment were read
from. -/
inductive Body.Renamed (known : String → Prop) : Body → Body → Prop
  | same (body : Body) : body.Renamed known body
  | name {name name' : String} : Alias known name name' → Body.Renamed known (.name name) (.name name')
  | segment (kind : SegmentKind) (content : SegmentContent) (dataOffset : Option Int) :
    Body.Renamed known (.segment kind content) (.segment kind { content with dataOffset })

/-- Blocks with one tag and with such contents, wherever they were read from. -/
inductive Block.Renamed (known : String → Prop) : Block → Block → Prop
  | plain {frame frame' : Frame} {body body' : Body} : frame.tag = frame'.tag →
    body.Renamed known body' → Block.Renamed known (.plain frame body) (.plain frame' body')
  | library {frame frame' : Frame} {blocks blocks' : List Block} : frame.tag = frame'.tag →
    List.Forall₂ (Block.Renamed known) blocks blocks' →
    Block.Renamed known (.library frame blocks) (.library frame' blocks')

def ParseError.Alike (e e' : ParseError) : Prop :=
  e.kind = e'.kind

variable {known : String → Prop} {block block' : Block} {blocks blocks' : List Block}

theorem Alias.isEmpty_iff {name name' : String} (h : Alias known name name') :
    name = "" ↔ name' = "" := by
  rcases h with rfl | ⟨⟨hname, -⟩, hname', -⟩
  · rfl
  · simp [hname, hname']

theorem Body.Renamed.kind_eq {body body' : Body} (h : body.Renamed known body') :
    body.kind = body'.kind := by
  cases h <;> rfl

theorem Body.renamed_move (body : Body) (d e : Int) :
    (body.move d).Renamed known (body.move e) := by
  cases body with
  | segment kind content => exact .segment kind (content.move d) (content.move e).dataOffset
  | _ => exact .same _

namespace Block

theorem Renamed.kind_eq (h : block.Renamed known block') : block.kind = block'.kind := by
  cases h with
  | plain _ hbody => exact hbody.kind_eq
  | library _ _ => rfl

theorem Renamed.tag_eq (h : block.Renamed known block') : block.frame.tag = block'.frame.tag := by
  cases h with
  | plain htag _ => exact htag
  | library htag _ => exact htag

mutual

theorem renamed_move (block : Block) (d e : Int) : (block.move d).Renamed known (block.move e) :=
  match block with
  | .plain _ body => .plain rfl (body.renamed_move d e)
  | .library _ blocks => .library rfl (allRenamed_allMoved blocks d e)

/-- Blocks that were read at two places. -/
theorem allRenamed_allMoved (blocks : List Block) (d e : Int) :
    List.Forall₂ (Renamed known) (allMoved d blocks) (allMoved e blocks) :=
  match blocks with
  | [] => .nil
  | block :: blocks => .cons (renamed_move block d e) (allRenamed_allMoved blocks d e)

end

section Tag

variable {executable : Bool} {window : Window} {pos pos' : Int} {tag : Nat} {front rest data : Bytes}

theorem decodeContent_tag (nested : Int → Decoder (List Block)) (tag : Nat) (start : Int) (kind : Kind) :
    Yields (decodeContent nested tag start kind) fun block ↦ block.frame.tag = some (tag : Int) := by
  have hplain : ∀ {α : Type} (x : Decoder α) (body : α → Body),
      Yields (x >>= fun a ↦ decodeContent.plain tag start a body)
        fun block ↦ block.frame.tag = some (tag : Int) :=
    fun x body ↦ (Yields.any x).bind fun _ _ ↦ (Yields.any _).bind fun _ _ ↦ .pure rfl
  cases kind with
  | ending => exact (Yields.any _).bind fun _ _ ↦ .pure rfl
  | pause => exact (Yields.any _).bind fun _ _ ↦ .pure rfl
  | library =>
    refine (Yields.any word).bind fun longs _ ↦ (Yields.any position).bind fun here _ ↦
      (Yields.any _).bind fun _ _ ↦ (Yields.any (nested _)).bind fun blocks _ ↦
        (Yields.any position).bind fun stop _ ↦ ?_
    have hlast : Yields (do
        let stop ← position
        return library ⟨some (tag : Int), some start, some stop⟩ blocks)
        fun block ↦ block.frame.tag = some (tag : Int) :=
      (Yields.any position).bind fun _ _ ↦ .pure rfl
    exact .ite (fun _ ↦ (Yields.any _).bind fun _ _ ↦ hlast) fun _ ↦ hlast
  | _ => exact hplain _ _

/-- A block begins with its tag. -/
theorem tag_of_decodeWith {nested : Int → Decoder (List Block)}
    (h : run (decodeWith nested executable window) pos = (.ok block, pos')) :
    ∃ tag : Nat, ∃ mid, run (word window) pos = (.ok tag, mid) ∧ block.frame.tag = some (tag : Int) ∧
      (kindOfTag? executable tag).isSome := by
  obtain ⟨start, mid, hstart, h⟩ := bind_eq_ok.mp h
  rw [run_position] at hstart
  cases hstart
  obtain ⟨tag, mid, htag, h⟩ := bind_eq_ok.mp h
  refine ⟨tag, mid, htag, ?_⟩
  cases hk : kindOfTag? executable tag with
  | none =>
    rw [hk] at h
    cases h
  | some kind =>
    rw [hk] at h
    have hcontent := decodeContent_tag nested tag pos kind
    refine ⟨(?_ : Yields _ fun block ↦ block.frame.tag = some (tag : Int)) _ _ _ _ h, rfl⟩
    exact .ite (fun _ ↦ (Yields.any _).bind fun _ _ ↦ (Yields.any _).bind fun _ _ ↦ hcontent)
      fun _ ↦ (Yields.any _).bind fun _ _ ↦ hcontent

theorem around_nil (front rest : Bytes) : around #[] front rest #[] = .ofBytes (front ++ rest) none := by
  simp [around, Window.ofBytes]

/-- The first word of an input that begins with blocks. -/
theorem exists_tag (h : (decodeAll executable (.ofBytes front none) 0).result = .ok (block :: blocks))
    (rest : Bytes) : ∃ tag : Nat, ∃ pos, run (word (.ofBytes (front ++ rest) none)) 0 = (.ok tag, pos) ∧
      block.frame.tag = some (tag : Int) ∧ (kindOfTag? executable tag).isSome := by
  obtain ⟨_, hblock, -⟩ := many_eq_cons nextOfAll?_takes_one (Action.result_eq h)
  obtain ⟨tag, _, hword, htag, hkind⟩ := tag_of_decodeWith (nextOfAll?_eq_some hblock).2
  have hpart := partOf_around_left #[] front rest #[]
  rw [around_nil] at hpart
  have hmatch := (Local.word _ _ _ hpart).run 0 le_rfl
  rw [hword] at hmatch
  obtain ⟨_, rfl, hrun, -⟩ := hmatch.ok_left
  exact ⟨tag, _, hrun, htag, hkind⟩

theorem peekKind_of_word (h : run (word (.ofBytes data none)) 0 = (.ok tag, pos)) :
    (File.peekKind (.ofBytes data none) 0).result = .ok (.ofTag tag) := by
  obtain ⟨_, _, hbytes, -⟩ := bind_eq_ok.mp h
  obtain ⟨-, -, hstop, -⟩ := take_eq_ok.mp hbytes
  have hpeek : run (peekWord (.ofBytes data none)) 0 = (.ok tag, 0) := by
    unfold run at h ⊢
    rw [peekWord]
    rw [Prod.mk.injEq] at h
    rw [← h.1]
  have hlong : ¬ (Window.ofBytes data none).stop - 0 < 4 := by omega
  refine congrArg Prod.fst (?_ : run (File.peekKind (.ofBytes data none)) 0 = (.ok (.ofTag tag), 0))
  rw [File.peekKind, run_bind_ok run_remaining, if_neg hlong, run_bind_ok hpeek]
  rfl

theorem tag_le (hk : (kindOfTag? executable tag).isSome) (ht : tag < 2 ^ 32) : tag % 2 ^ 30 ≤ 1260 := by
  have hnumber : ∀ kind : Kind, kind.number ≤ 1260 := by
    intro kind
    cases kind with
    | segment kind => cases kind <;> decide
    | relocs kind => cases kind <;> decide
    | _ => decide
  obtain ⟨kind, hk⟩ := Option.isSome_iff_exists.mp hk
  obtain ⟨-, ⟨hn, -⟩ | ⟨-, -, hn⟩⟩ := isTag_of_kindOfTag? ht hk
  · exact hn.trans_le (hnumber kind)
  · exact hn.trans_le (by decide)

theorem take_ne_magic {bytes : List UInt8} (hl : bytes.length = 4)
    (hle : Bytes.toNat bytes % 2 ^ 30 ≤ 1260) : bytes.take 2 ≠ LoadSpec.kickstartMagic := by
  match bytes, hl with
  | [a, b, c, d], _ =>
    intro hm
    obtain ⟨rfl, rfl⟩ : a = 0x11 ∧ b = 0x11 := by simpa [LoadSpec.kickstartMagic] using hm
    simp only [Bytes.toNat_cons, Bytes.toNat_nil, Bytes.modulus, List.length_cons, List.length_nil] at hle
    have hc := c.toNat_lt
    have hd := d.toNat_lt
    have hfirst : (0x11 : UInt8).toNat = 17 := rfl
    omega

/-- The tag of a block is not what images of another format begin with. -/
theorem ofBytes?_of_word (h : run (word (.ofBytes data none)) 0 = (.ok tag, pos))
    (hk : (kindOfTag? executable tag).isSome) :
    LoadSpec.ofBytes? data = .ok (if FileKind.ofTag tag = .unknown then none else some .hunks) := by
  have hmagic : data.toList.take 2 ≠ LoadSpec.kickstartMagic := by
    obtain ⟨bytes, _, hbytes, htag⟩ := bind_eq_ok.mp h
    obtain ⟨rfl, -⟩ := pure_eq_ok.mp htag
    obtain ⟨-, -, -, hsize, -, hbytes⟩ := take_eq_ok.mp hbytes
    have hfour : bytes = data.toList.take 4 := by simpa [Window.ofBytes] using hbytes
    have hlength : bytes.length = 4 := by
      have hsize : (4 : Int) ≤ data.size := by simpa [Window.ofBytes] using hsize
      rw [hfour, List.length_take, Array.length_toList]
      omega
    have hlt : Bytes.toNat bytes < 2 ^ 32 := by
      have hlt := Bytes.toNat_lt bytes
      rwa [hlength] at hlt
    have hfirst := take_ne_magic hlength (tag_le hk hlt)
    rwa [hfour, List.take_take] at hfirst
  rw [LoadSpec.ofBytes?, peekKind_of_word h]
  by_cases hu : FileKind.ofTag tag = .unknown
  · simp [hu, hmagic, Bind.bind, Except.bind, Pure.pure, Except.pure]
  · simp [hu, Bind.bind, Except.bind, Pure.pure, Except.pure]

theorem front_eq_nil (h : (decodeAll executable (.ofBytes front none) 0).result = .ok []) : front = #[] := by
  obtain ⟨-, hend⟩ := nextOfAll?_eq_none (many_eq_nil nextOfAll?_takes_one (Action.result_eq h))
  have hsize : (front.size : Int) ≤ 0 := hend
  exact Array.eq_empty_of_size_eq_zero (by omega)

/-- Behind blocks an input reads as it would by itself. -/
theorem decodeAll_behind (h : (decodeAll executable (.ofBytes front none) 0).result = .ok blocks)
    (rest : Bytes) : Kindred ParseError.Alike (fun more whole ↦ whole = blocks ++ allMoved front.size more)
      (run (decodeAll executable (.ofBytes rest none)) 0).1
      (run (decodeAll executable (.ofBytes (front ++ rest) none)) 0).1 := by
  have hwhole := run_around #[] rest #[] h
  obtain ⟨hstop, hfollows⟩ := around_follows executable #[] front rest #[]
  have hrest := hfollows.run 0 le_rfl
  rw [around_nil] at hwhole hstop hrest
  simp only [List.size_toArray, List.length_nil, Nat.zero_add, Nat.cast_zero, allMoved_zero] at hwhole hstop hrest
  generalize run (decodeAll executable (.ofBytes rest none)) 0 = found at hrest ⊢
  rcases found with ⟨e | more, last⟩
  · obtain ⟨e', last', he', hkind⟩ := hrest.error_left hstop
    rw [hwhole, he']
    exact .error hkind.symm
  · obtain ⟨more, rfl, hmore, -⟩ := hrest.ok_left
    rw [hwhole, hmore]
    refine .ok ?_
    rw [← allMoved_eq, allMoved_allMoved, Int.add_left_neg, allMoved_zero]

/-- Behind related blocks, inputs read alike that read alike by themselves. -/
theorem decodeAll_alike {R : Block → Block → Prop} {front' rest' : Bytes}
    (hf : (decodeAll executable (.ofBytes front none) 0).result = .ok blocks)
    (hf' : (decodeAll executable (.ofBytes front' none) 0).result = .ok blocks')
    (hb : List.Forall₂ R blocks blocks')
    (hr : Kindred ParseError.Alike
      (fun more more' ↦ List.Forall₂ R (allMoved front.size more) (allMoved front'.size more'))
      (run (decodeAll executable (.ofBytes rest none)) 0).1
      (run (decodeAll executable (.ofBytes rest' none)) 0).1) :
    Kindred ParseError.Alike (List.Forall₂ R)
      (run (decodeAll executable (.ofBytes (front ++ rest) none)) 0).1
      (run (decodeAll executable (.ofBytes (front' ++ rest') none)) 0).1 := by
  have hfirst := decodeAll_behind hf rest
  have hsecond := decodeAll_behind hf' rest'
  generalize (run (decodeAll executable (.ofBytes rest none)) 0).1 = more at hr hfirst
  generalize (run (decodeAll executable (.ofBytes rest' none)) 0).1 = more' at hr hsecond
  generalize (run (decodeAll executable (.ofBytes (front ++ rest) none)) 0).1 = whole at hfirst ⊢
  generalize (run (decodeAll executable (.ofBytes (front' ++ rest') none)) 0).1 = whole' at hsecond ⊢
  cases hr with
  | error he =>
    cases hfirst with
    | error hfe =>
      cases hsecond with
      | error hse => exact .error ((hfe.symm.trans he).trans hse)
  | ok hmore =>
    cases hfirst with
    | ok hwhole =>
      cases hsecond with
      | ok hwhole' =>
        rw [hwhole, hwhole']
        exact .ok (List.rel_append hb hmore)

end Tag

end Block

/-- Files of one kind with such blocks. -/
def File.Renamed (known : String → Prop) (file file' : File) : Prop :=
  file.kind = file'.kind ∧ List.Forall₂ (Block.Renamed known) file.blocks file'.blocks

/-- Once the kind of a file is known, its blocks are read. -/
theorem File.run_decode {window : Window} {kind : FileKind}
    (h : (File.peekKind window 0).result = .ok kind) : run (File.decode none window) 0 =
      ((run (Block.decodeAll (kind = .program) window) 0).1.map (⟨·, kind⟩),
        (run (Block.decodeAll (kind = .program) window) 0).2) := by
  have hword : run (peekWord window) 0 = ((run (word window) 0).1, 0) := rfl
  have hpeek : run (File.peekKind window) 0 = (.ok kind, 0) := by
    refine Prod.ext h ?_
    rw [File.peekKind, run_bind_ok run_remaining]
    split
    · rfl
    · rcases hr : (run (word window) 0).1 with e | tag
      · rw [run_bind_error (hword.trans (by rw [hr]))]
      · rw [run_bind_ok (hword.trans (by rw [hr]))]
        rfl
  rw [File.decode, run_bind_ok hpeek, Option.getD_none]
  rcases hr : run (Block.decodeAll (kind = .program) window) 0 with ⟨e | blocks, last⟩
  · rw [run_bind_error hr]
    rfl
  · rw [run_bind_ok hr, run_bind_ok (run_info _)]
    rfl

/-- Two inputs that begin with blocks which differ in the strings of name blocks only, read as the
file's kind asks for, and go on with the same bytes. -/
def Input.Renamed (known : String → Prop) (data data' : Bytes) : Prop :=
  ∃ (kind : FileKind) (front front' rest : Bytes) (blocks blocks' : List Block),
    data = front ++ rest ∧ data' = front' ++ rest ∧
      (File.peekKind (.ofBytes data none) 0).result = .ok kind ∧
      (Block.decodeAll (kind = .program) (.ofBytes front none) 0).result = .ok blocks ∧
      (Block.decodeAll (kind = .program) (.ofBytes front' none) 0).result = .ok blocks' ∧
      List.Forall₂ (Block.Renamed known) blocks blocks'

namespace Input.Renamed

variable {data data' : Bytes}

/-- Such inputs are of one kind, which a change of names does not make another format. -/
theorem spec_eq (h : Input.Renamed known data data') : data = data' ∨
    (File.peekKind (.ofBytes data' none) 0).result = (File.peekKind (.ofBytes data none) 0).result ∧
      ∃ spec : Option LoadSpec, LoadSpec.ofBytes? data = .ok spec ∧ LoadSpec.ofBytes? data' = .ok spec ∧
        ∀ base, spec ≠ some (.kickstart base) := by
  obtain ⟨kind, front, front', rest, blocks, blocks', rfl, rfl, -, hblocks, hblocks', hr⟩ := h
  cases hr with
  | nil =>
    rw [Block.front_eq_nil hblocks, Block.front_eq_nil hblocks']
    exact Or.inl rfl
  | cons hblock _ =>
    obtain ⟨tag, _, hword, htag, hk⟩ := Block.exists_tag hblocks rest
    obtain ⟨tag', _, hword', htag', hk'⟩ := Block.exists_tag hblocks' rest
    obtain rfl : tag = tag' := by
      have htags := hblock.tag_eq
      rw [htag, htag'] at htags
      exact Int.ofNat.inj (Option.some.inj htags)
    refine Or.inr ⟨?_, _, Block.ofBytes?_of_word hword hk, Block.ofBytes?_of_word hword' hk', fun base ↦ ?_⟩
    · rw [Block.peekKind_of_word hword, Block.peekKind_of_word hword']
    · split <;> simp

/-- Such inputs read as files that differ in names only, or both are no files for one kind of reason. -/
theorem decode (h : Input.Renamed known data data') :
    Akin (fun _ _ ↦ True) ParseError.Alike (File.Renamed known)
      (run (File.decode none (.ofBytes data none)) 0) (run (File.decode none (.ofBytes data' none)) 0) := by
  obtain ⟨kind, front, front', rest, blocks, blocks', rfl, rfl, hkind, hblocks, hblocks', hr⟩ := id h
  have hkind' : (File.peekKind (.ofBytes (front' ++ rest) none) 0).result = .ok kind := by
    rcases h.spec_eq with he | ⟨he, -⟩
    · rw [← he, hkind]
    · rw [he, hkind]
  rw [File.run_decode hkind, File.run_decode hkind']
  have hrest : Kindred ParseError.Alike Eq
      (run (Block.decodeAll (kind = .program) (.ofBytes rest none)) 0).1
      (run (Block.decodeAll (kind = .program) (.ofBytes rest none)) 0).1 := .refl fun _ ↦ rfl
  have hwhole := Block.decodeAll_alike hblocks hblocks' hr (hrest.mono (fun _ _ he ↦ he) fun more _ he ↦
    he ▸ Block.allRenamed_allMoved more _ _)
  generalize run (Block.decodeAll (kind = .program) (.ofBytes (front ++ rest) none)) 0 = p at hwhole ⊢
  generalize run (Block.decodeAll (kind = .program) (.ofBytes (front' ++ rest) none)) 0 = q at hwhole ⊢
  rcases p with ⟨p, _⟩
  rcases q with ⟨q, _⟩
  cases hwhole with
  | error he => exact .error he trivial
  | ok hall => exact .ok ⟨rfl, hall⟩ trivial

end Input.Renamed

end Hunks
