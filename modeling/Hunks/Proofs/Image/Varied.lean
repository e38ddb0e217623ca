import Mathlib
import Hunks.Image.Relocate
import Hunks.Proofs.Block.Renamed

namespace Hunks

open Hunks.Action (run Kindred Parallel)

theorem isEmpty_eq {α β : Type} {R : α → β → Prop} {as : List α} {bs : List β}
    (h : List.Forall₂ R as bs) : as.isEmpty = bs.isEmpty := by
  cases h <;> rfl

theorem zipIdx_forall₂ {α β : Type} {R : α → β → Prop} {as : List α} {bs : List β}
    (h : List.Forall₂ R as bs) (n : Nat) :
    List.Forall₂ (fun p q ↦ R p.1 q.1 ∧ p.2 = q.2) (as.zipIdx n) (bs.zipIdx n) := by
  induction h generalizing n with
  | nil => exact .nil
  | cons hab _ ih => exact .cons ⟨hab, rfl⟩ (ih (n + 1))

theorem foldlM_congr {α β γ ε : Type} {R : α → β → Prop} {f : γ → α → Except ε γ} {g : γ → β → Except ε γ}
    {as : List α} {bs : List β} (h : List.Forall₂ R as bs) (hf : ∀ c a b, R a b → f c a = g c b) (c : γ) :
    as.foldlM f c = bs.foldlM g c := by
  induction h generalizing c with
  | nil => rfl
  | cons hab _ ih =>
    rw [List.foldlM_cons, List.foldlM_cons, hf c _ _ hab]
    exact congrArg (g c _ >>= ·) (funext ih)

theorem zip_forall₂ {α β γ : Type} {R : α → β → Prop} {as : List α} {bs : List β}
    (h : List.Forall₂ R as bs) (cs : List γ) :
    List.Forall₂ (fun p q ↦ R p.1 q.1 ∧ p.2 = q.2 ∧ p.2 ∈ cs) (as.zip cs) (bs.zip cs) := by
  induction h generalizing cs with
  | nil => exact .nil
  | cons hab _ ih =>
    cases cs with
    | nil => exact .nil
    | cons c cs =>
      refine .cons ⟨hab, rfl, List.mem_cons_self⟩ ((ih cs).imp fun p q hpq ↦ ?_)
      exact ⟨hpq.1, hpq.2.1, List.mem_cons_of_mem _ hpq.2.2⟩

namespace Action

variable {σ ε α β : Type} {P : α → α → Prop} {as bs : List α}

/-- A loop whose steps do not tell the elements of two lists apart. -/
theorem foldl_congr {f : β → α → Action σ ε β} (h : List.Forall₂ P as bs)
    (hf : ∀ c a b, P a b → f c a = f c b) (c : β) : foldl f c as = foldl f c bs := by
  have hall : ∀ s log, foldlAux f as c s log = foldlAux f bs c s log := by
    induction h generalizing c with
    | nil => exact fun _ _ ↦ rfl
    | cons hab _ ih =>
      intro s log
      rw [foldlAux, foldlAux, hf c _ _ hab]
      rcases f c _ s with ⟨e | c, t, more⟩
      · rfl
      · exact ih c t _
  exact funext fun s ↦ hall s ∅

theorem forEach_congr {f : α → Action σ ε Unit} (h : List.Forall₂ P as bs)
    (hf : ∀ a b, P a b → f a = f b) : forEach as f = forEach bs f :=
  foldl_congr h (fun _ a b hab ↦ hf a b hab) ()

end Action

/-- What two files may differ in besides the places of their blocks: the strings of names, and the kinds of
blocks with relocations. -/
structure Leeway (N : String → String → Prop) (K : RelocKind → RelocKind → Prop) : Prop where
  name : ∀ text, N text text
  empty : ∀ text text', N text text' → (text = "" ↔ text' = "")
  kind : ∀ kind, K kind kind
  width : ∀ kind kind', K kind kind' → kind.width = kind'.width
  relative : ∀ kind kind', K kind kind' → kind.pcRelative = kind'.pcRelative
  branch : ∀ kind kind', K kind kind' → (kind = .relReloc26 ↔ kind' = .relReloc26)

/-- One content twice, but for such differences and the place that the data of a segment were read
from. -/
inductive Body.Varied (N : String → String → Prop) (K : RelocKind → RelocKind → Prop) : Body → Body → Prop
  | same (body : Body) : body.Varied N K body
  | name {text text' : String} : N text text' → Body.Varied N K (.name text) (.name text')
  | segment (kind : SegmentKind) (content : SegmentContent) (dataOffset : Option Int) :
    Body.Varied N K (.segment kind content) (.segment kind { content with dataOffset })
  | relocs {kind kind' : RelocKind} (groups : List RelocGroup) : K kind kind' →
    Body.Varied N K (.relocs kind groups) (.relocs kind' groups)

/-- Blocks with such contents, wherever they were read from. No hunk holds the blocks of a library. -/
inductive Block.Varied (N : String → String → Prop) (K : RelocKind → RelocKind → Prop) : Block → Block → Prop
  | plain (frame frame' : Frame) {body body' : Body} : body.Varied N K body' →
    Block.Varied N K (.plain frame body) (.plain frame' body')
  | library (frame frame' : Frame) (blocks blocks' : List Block) :
    Block.Varied N K (.library frame blocks) (.library frame' blocks')

/-- Files of one kind with such blocks. -/
def File.Varied (N : String → String → Prop) (K : RelocKind → RelocKind → Prop) (file file' : File) : Prop :=
  file.kind = file'.kind ∧ List.Forall₂ (Block.Varied N K) file.blocks file'.blocks

variable {N : String → String → Prop} {K : RelocKind → RelocKind → Prop} {block block' : Block}
  {blocks blocks' : List Block}

/-- Where the kinds of two such blocks differ, both hold relocations. -/
theorem Block.Varied.kind_eq (h : block.Varied N K block') :
    block.kind = block'.kind ∨ ∃ kind kind', block.kind = .relocs kind ∧ block'.kind = .relocs kind' := by
  cases h with
  | library => exact Or.inl rfl
  | plain _ _ hbody =>
    cases hbody with
    | same body => exact Or.inl rfl
    | name _ => exact Or.inl rfl
    | segment kind content dataOffset => exact Or.inl rfl
    | relocs groups hk => exact Or.inr ⟨_, _, rfl, rfl⟩

/-- One content that was read from two places. -/
def SegmentContent.Moved (content content' : SegmentContent) : Prop :=
  ∃ dataOffset, content' = { content with dataOffset }

namespace Hunk

/-- Hunks that differ so. -/
def Varied (N : String → String → Prop) (K : RelocKind → RelocKind → Prop) (hunk hunk' : Hunk) : Prop :=
  ∃ name segment relocs, hunk' = { hunk with name, segment, relocs } ∧ N hunk.name name ∧
    Option.Rel (fun p q ↦ p.1 = q.1 ∧ p.2.Moved q.2) hunk.segment segment ∧
    List.Forall₂ (fun p q ↦ K p.1 q.1 ∧ p.2 = q.2) hunk.relocs relocs

variable {hunk hunk' : Hunk}

theorem Varied.isSome_eq (h : hunk.Varied N K hunk') : hunk'.segment.isSome = hunk.segment.isSome := by
  obtain ⟨name, segment, relocs, rfl, -, hs, -⟩ := h
  generalize hunk.segment = found at hs ⊢
  cases hs with
  | some _ => rfl
  | none => rfl

theorem add_varied (hl : Leeway N K) (h : block.Varied N K block') :
    Parallel (Varied N K) (Varied N K) ParseError.Alike Eq (add block) (add block') := by
  intro hunk _ hh
  obtain ⟨name, segment, relocs, rfl, hname, hsegment, hrelocs⟩ := id hh
  have hempty : (hunk.name ≠ "") ↔ (name ≠ "") := not_congr (hl.empty _ _ hname)
  rw [add, add, Action.run_bind, Action.run_bind, Action.run_get, Action.run_get]
  dsimp only
  cases h with
  | library => exact .error rfl hh
  | plain _ _ hbody =>
    cases hbody with
    | name hn =>
      refine .guard hempty (fun _ ↦ rfl) hh fun _ ↦ ?_
      exact .ok rfl ⟨_, segment, relocs, rfl, hn, hsegment, hrelocs⟩
    | segment kind content dataOffset =>
      refine .guard (by rw [hh.isSome_eq]) (fun _ ↦ rfl) hh fun _ ↦ ?_
      exact .ok rfl ⟨name, _, relocs, rfl, hname, .some ⟨rfl, _, rfl⟩, hrelocs⟩
    | relocs groups hk =>
      exact .ok rfl ⟨name, segment, _, rfl, hname, hsegment, List.rel_append hrelocs (.cons ⟨hk, rfl⟩ .nil)⟩
    | same =>
      cases ‹Body› with
      | segment kind content =>
        refine .guard (by rw [hh.isSome_eq]) (fun _ ↦ rfl) hh fun _ ↦ ?_
        exact .ok rfl ⟨name, _, relocs, rfl, hname, .some ⟨rfl, _, rfl⟩, hrelocs⟩
      | name text =>
        refine .guard hempty (fun _ ↦ rfl) hh fun _ ↦ ?_
        exact .ok rfl ⟨text, segment, relocs, rfl, hl.name text, hsegment, hrelocs⟩
      | symbols entries =>
        refine .guard Iff.rfl (fun _ ↦ rfl) hh fun _ ↦ ?_
        exact .ok rfl ⟨name, segment, relocs, rfl, hname, hsegment, hrelocs⟩
      | externals entries =>
        refine .guard Iff.rfl (fun _ ↦ rfl) hh fun _ ↦ ?_
        exact .ok rfl ⟨name, segment, relocs, rfl, hname, hsegment, hrelocs⟩
      | debug data => exact .ok rfl ⟨name, segment, relocs, rfl, hname, hsegment, hrelocs⟩
      | relocs kind groups =>
        exact .ok rfl
          ⟨name, segment, _, rfl, hname, hsegment, List.rel_append hrelocs (.cons ⟨hl.kind kind, rfl⟩ .nil)⟩
      | _ => exact .error rfl hh

theorem ofBlocks_varied (hl : Leeway N K) (h : List.Forall₂ (Block.Varied N K) blocks blocks') :
    Parallel Eq Eq ParseError.Alike (Varied N K) (ofBlocks blocks) (ofBlocks blocks') := by
  have hempty : Varied N K empty empty := ⟨_, _, _, rfl, hl.name _, .none, .nil⟩
  have hgather : Parallel (Varied N K) (Varied N K) ParseError.Alike Eq (gather blocks)
      (gather blocks') := by
    refine .bind (.foldl h (fun _ _ _ _ _ hb ↦ add_varied hl hb) rfl) fun _ _ _ ↦ ?_
    intro hunk hunk' hh
    rw [Action.run_bind, Action.run_bind, Action.run_get, Action.run_get]
    refine .guard ?_ (fun _ ↦ rfl) hh fun _ ↦ .ok rfl hh
    rw [← Option.not_isSome, ← Option.not_isSome, hh.isSome_eq]
  exact .bind (.within hgather hempty) fun _ _ hq ↦ .pure hq.2

namespace Division

/-- Divisions of such blocks into hunks. -/
structure Varied (N : String → String → Prop) (K : RelocKind → RelocKind → Prop)
    (division division' : Division) : Prop where
  closed : List.Forall₂ (List.Forall₂ (Block.Varied N K)) division.closed division'.closed
  current : Option.Rel (List.Forall₂ (Block.Varied N K)) division.current division'.current
  pending : List.Forall₂ (Block.Varied N K) division.pending division'.pending

variable {division division' : Division}

theorem Varied.close (h : division.Varied N K division') :
    division.close.Varied N K division'.close := by
  obtain ⟨closed, current, pending⟩ := division
  obtain ⟨closed', current', pending'⟩ := division'
  obtain ⟨hclosed, hcurrent, hpending⟩ := h
  cases hcurrent with
  | none => exact ⟨hclosed, .none, hpending⟩
  | some hblocks => exact ⟨.cons (List.rel_reverse hblocks) hclosed, .none, hpending⟩

theorem Varied.add (h : division.Varied N K division') (hb : block.Varied N K block') :
    Kindred ParseError.Alike (Varied N K) (Division.add block division)
      (Division.add block' division') := by
  have hclose := h.close
  have hkind := hb.kind_eq
  obtain ⟨closed, current, pending⟩ := division
  obtain ⟨closed', current', pending'⟩ := division'
  obtain ⟨hclosed, hcurrent, hpending⟩ := h
  rw [Division.add, Division.add]
  generalize block.kind = kind at hkind ⊢
  generalize block'.kind = kind' at hkind ⊢
  have hpassive : kind.isPassive = kind'.isPassive := by
    obtain rfl | ⟨_, _, rfl, rfl⟩ := hkind <;> rfl
  cases hcurrent with
  | none =>
    have hother : Kindred ParseError.Alike (Varied N K)
        (if kind.isPassive then .ok ⟨closed, none, pending⟩
          else .error (.outsideHunk kind block.frame.start))
        (if kind'.isPassive then .ok ⟨closed', none, pending'⟩
          else .error (.outsideHunk kind' block'.frame.start)) := by
      rw [← hpassive]
      split
      · exact .ok ⟨hclosed, .none, hpending⟩
      · exact .error rfl
    obtain rfl | ⟨_, _, rfl, rfl⟩ := hkind
    · cases kind with
      | ending => exact .ok hclose
      | segment kind => exact .ok ⟨hclose.closed, .some (.cons hb hpending), .nil⟩
      | name => exact .ok ⟨hclosed, .none, .cons hb hpending⟩
      | _ => exact hother
    · exact hother
  | @some part part' hblocks =>
    have hother : Kindred ParseError.Alike (Varied N K)
        (if kind.isPassive then .error (.insideHunk kind block.frame.start)
          else .ok ⟨closed, some (block :: part), pending⟩)
        (if kind'.isPassive then .error (.insideHunk kind' block'.frame.start)
          else .ok ⟨closed', some (block' :: part'), pending'⟩) := by
      rw [← hpassive]
      split
      · exact .error rfl
      · exact .ok ⟨hclosed, .some (.cons hb hblocks), hpending⟩
    obtain rfl | ⟨_, _, rfl, rfl⟩ := hkind
    · cases kind with
      | ending => exact .ok hclose
      | segment kind => exact .ok ⟨hclose.closed, .some (.cons hb hpending), .nil⟩
      | _ => exact hother
    · exact hother

end Division

theorem divide_varied (h : List.Forall₂ (Block.Varied N K) blocks blocks') :
    Parallel Eq Eq ParseError.Alike (List.Forall₂ (List.Forall₂ (Block.Varied N K))) (divide blocks)
      (divide blocks') := by
  have hstart : Division.Varied N K ⟨[], none, []⟩ ⟨[], none, []⟩ := ⟨.nil, .none, .nil⟩
  refine .bind (.foldl h (fun _ _ _ _ hd hb ↦ ?_) hstart) fun division division' hd ↦ ?_
  · exact .bind (.tell _ _) fun _ _ _ ↦ .ofExcept (hd.add hb)
  · refine .guard ?_ (fun _ ↦ rfl) fun _ ↦ .pure (List.rel_reverse hd.close.closed)
    rw [isEmpty_eq hd.pending]

theorem allocate_varied {hunks hunks' : List Hunk} (h : List.Forall₂ (Varied N K) hunks hunks')
    (header : Header) :
    List.Forall₂ (Varied N K) (allocate header hunks) (allocate header hunks') := by
  refine List.rel_map (fun p q hpq ↦ ?_) (zipIdx_forall₂ h 0)
  obtain ⟨hunk, id⟩ := p
  obtain ⟨hunk', id'⟩ := q
  obtain ⟨⟨name, segment, relocs, rfl, hrest⟩, rfl⟩ := hpq
  dsimp only
  split
  · exact ⟨name, segment, relocs, rfl, hrest⟩
  · exact ⟨name, segment, relocs, rfl, hrest⟩

end Hunk

namespace File

variable {file file' : File}

theorem Varied.header?_eq (h : file.Varied N K file') : file'.header? = file.header? := by
  obtain ⟨blocks, kind⟩ := file
  obtain ⟨blocks', kind'⟩ := file'
  obtain ⟨rfl, hblocks⟩ := h
  cases hblocks with
  | nil => rfl
  | cons hb _ =>
    cases hb with
    | library => rfl
    | plain _ _ hbody =>
      cases hbody with
      | name _ => rfl
      | segment _ _ _ => rfl
      | relocs _ _ => rfl
      | same => cases ‹Body› <;> rfl

theorem hunks_varied (hl : Leeway N K) (h : file.Varied N K file') :
    Parallel Eq Eq ParseError.Alike (List.Forall₂ (Hunk.Varied N K)) file.hunks file'.hunks := by
  refine .guard (by rw [isEmpty_eq h.2]) (fun _ ↦ rfl) fun _ ↦ ?_
  rw [h.header?_eq]
  refine .bind (.ofExcept (.refl fun _ ↦ rfl)) ?_
  rintro header _ rfl
  refine .bind (Hunk.divide_varied h.2) fun parts parts' hparts ↦ ?_
  refine .bind (.foldl_push (Q := Hunk.Varied N K) hparts fun found found' part part' hpart ↦ ?_)
    fun found found' hfound ↦ ?_
  · refine .bind (Hunk.ofBlocks_varied hl hpart) fun hunk hunk' hh ↦ ?_
    exact .bind (.report _ _ _ _) fun _ _ _ ↦ .pure ⟨hunk, hunk', hh, rfl, rfl⟩
  · cases header with
    | none => exact .bind (.report _ _ _ _) fun _ _ _ ↦ .pure hfound
    | some header =>
      refine .guard (by rw [hfound.length_eq]) (fun _ ↦ rfl) fun _ ↦ ?_
      exact .bind (.report _ _ _ _) fun _ _ _ ↦ .pure (Hunk.allocate_varied hfound header)

end File

/-- One relocation, but for its kind. -/
def Relocation.Varied (K : RelocKind → RelocKind → Prop) (reloc reloc' : Relocation) : Prop :=
  K reloc.kind reloc'.kind ∧ reloc' = { reloc with kind := reloc'.kind }

namespace Segment

/-- Segments of such hunks. -/
def Varied (N : String → String → Prop) (K : RelocKind → RelocKind → Prop) (segment segment' : Segment) :
    Prop :=
  ∃ name dataOffset relocs, segment' = { segment with name, dataOffset, relocs } ∧ N segment.name name ∧
    List.Forall₂ (Relocation.Varied K) segment.relocs relocs

theorem relocations_varied (hl : Leeway N K) {kind kind' : RelocKind} (hk : K kind kind')
    (data : Option Bytes) (group : RelocGroup) :
    List.Forall₂ (Relocation.Varied K) (relocations data kind group) (relocations data kind' group) := by
  have haddend : ∀ offset, addend? data offset kind'.width kind' = addend? data offset kind.width kind := by
    intro offset
    cases data with
    | none => rfl
    | some data => simp only [addend?, hl.width _ _ hk, hl.branch _ _ hk]
  refine List.rel_map (R := Eq) ?_ (List.forall₂_refl group.offsets)
  rintro offset _ rfl
  refine ⟨hk, ?_⟩
  simp only [haddend, hl.width _ _ hk, hl.relative _ _ hk]

theorem ofHunk_varied (hl : Leeway N K) {hunk hunk' : Hunk} (h : hunk.Varied N K hunk') (kind : SegmentKind)
    {content content' : SegmentContent} (hc : content.Moved content') :
    (ofHunk kind content hunk).Varied N K (ofHunk kind content' hunk') := by
  obtain ⟨name, segment, relocs, rfl, hname, -, hrelocs⟩ := h
  obtain ⟨dataOffset, rfl⟩ := hc
  refine ⟨name, dataOffset.getD 0, _, rfl, hname, List.rel_flatMap hrelocs ?_⟩
  rintro ⟨kind₁, groups⟩ ⟨kind₂, _⟩ ⟨hk, rfl⟩
  refine List.rel_flatMap (R := Eq) (List.forall₂_refl groups) ?_
  rintro group _ rfl
  exact relocations_varied hl hk _ group

/-- Relocations that differ in such a kind are applied alike. -/
theorem applyReloc_varied (hl : Leeway N K) {segment segment' : Segment} (hs : segment'.size = segment.size)
    {reloc reloc' : Relocation} (hr : reloc.Varied K reloc') (addresses : List Int) (id : Nat)
    (data : Bytes) :
    segment'.applyReloc addresses id data reloc' = segment.applyReloc addresses id data reloc := by
  obtain ⟨hk, he⟩ := hr
  generalize reloc'.kind = kind at hk he
  subst he
  have hpatch : ∀ value, patch? data { reloc with kind } value = patch? data reloc value := by
    intro value
    simp only [patch?, hl.branch _ _ hk]
  simp only [applyReloc, hs, hpatch]
  rfl

theorem relocate_varied (hl : Leeway N K) {segment segment' : Segment} (h : segment.Varied N K segment')
    (addresses : List Int) (id : Nat) : segment'.relocate addresses id = segment.relocate addresses id := by
  obtain ⟨name, dataOffset, relocs, rfl, -, hrelocs⟩ := h
  have htargets : segment.relocs.map Relocation.target = relocs.map Relocation.target := by
    have hmap : List.Forall₂ Eq (segment.relocs.map Relocation.target) (relocs.map Relocation.target) :=
      List.rel_map (fun reloc reloc' hr ↦ by rw [hr.2]) hrelocs
    rwa [List.forall₂_eq_eq_eq] at hmap
  have happly : ∀ data, relocs.foldlM (({ segment with name, dataOffset, relocs } : Segment).applyReloc addresses id)
      data = segment.relocs.foldlM (segment.applyReloc addresses id) data := fun data ↦
    (foldlM_congr hrelocs (fun data reloc reloc' hr ↦
      (applyReloc_varied hl (by rfl) hr addresses id data).symm) data).symm
  simp only [relocate, unknownTarget?, targets, targetCounts, htargets, happly]
  rfl

end Segment

namespace Image

/-- Images of such segments. -/
def Varied (N : String → String → Prop) (K : RelocKind → RelocKind → Prop) (image image' : Image) : Prop :=
  image.kind = image'.kind ∧ List.Forall₂ (Segment.Varied N K) image.segments image'.segments

theorem ofFile_varied (hl : Leeway N K) {file file' : File} (h : file.Varied N K file') :
    Parallel Eq Eq ParseError.Alike (Varied N K) (ofFile file) (ofFile file') := by
  refine .bind (File.hunks_varied hl h) fun hunks hunks' hhunks ↦ ?_
  refine .bind (.foldl_push (Q := Segment.Varied N K) hhunks fun found found' hunk hunk' hh ↦ ?_)
    fun segments segments' hs ↦ ?_
  · obtain ⟨name, segment, relocs, rfl, -, hsegment, -⟩ := id hh
    generalize hunk.segment = part at hsegment
    cases hsegment with
    | none => exact .throw rfl
    | @some p q hpq =>
      obtain ⟨kind, content⟩ := p
      obtain ⟨_, content'⟩ := q
      obtain ⟨rfl, hc⟩ := hpq
      refine .bind (.tell _ _) fun _ _ _ ↦ .bind (.report _ _ _ _) fun _ _ _ ↦ .pure ?_
      exact ⟨_, _, Segment.ofHunk_varied hl hh kind hc, rfl, rfl⟩
  · exact .bind (.report _ _ _ _) fun _ _ _ ↦ .pure ⟨h.1, hs⟩

theorem relocate_varied (hl : Leeway N K) {image image' : Image} (h : image.Varied N K image')
    (addresses : List Int) : image'.relocate addresses = image.relocate addresses := by
  rw [relocate, relocate, h.2.length_eq, Action.foldl_congr h.2]
  intro done segment segment' hs
  have hlength : segment'.relocs.length = segment.relocs.length ∧
      segment'.relocs.isEmpty = segment.relocs.isEmpty := by
    obtain ⟨name, dataOffset, relocs, rfl, -, hrelocs⟩ := hs
    exact ⟨hrelocs.length_eq.symm, (isEmpty_eq hrelocs).symm⟩
  simp only [Segment.relocate_varied hl hs, hlength]

end Image

end Hunks
