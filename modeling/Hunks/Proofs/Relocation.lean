import Mathlib
import Hunks.Image.Relocate
import Hunks.Proofs.Bytes.Span
import Hunks.Proofs.Image
import Hunks.Proofs.Layout

namespace Hunks

open Hunks.Action (run)

/-- A place that a block of relocations lists. -/
structure Site where
  kind : RelocKind
  target : Int
  offset : Int
  deriving DecidableEq, Repr

namespace Site

def width (site : Site) : Nat :=
  site.kind.width.bytes

def span (site : Site) : Span :=
  ⟨site.offset.toNat, site.width⟩

/-- The stored number at a site with its sign. -/
def addend (site : Site) (content : Bytes) : Int :=
  Int.bmod (content.field site.span) (2 ^ (8 * site.width))

/-- The displacement of the branch at a site with its sign. -/
def displacement (site : Site) (content : Bytes) : Int :=
  Int.bmod (content.field site.span &&& 0x03fffffc : Nat) (2 ^ 26)

def reloc (site : Site) (data : Option Bytes) : Relocation where
  target := site.target
  offset := site.offset
  width := site.kind.width
  addend := (Segment.addend? data site.offset site.kind.width site.kind).getD 0
  kind := site.kind
  pcRelative := site.kind.pcRelative

theorem write_eq_some {site : Site} {before after : Bytes} {value : Int} (ho : 0 ≤ site.offset)
    (h : Bytes.write? before site.offset site.kind.width value = some after) :
    site.offset + site.width ≤ before.size ∧ Bytes.SameOutside [site.span] before after ∧
      (after.field site.span : Int) = value % 2 ^ (8 * site.width) :=
  Bytes.write?_eq_some ho h

theorem width_branch {site : Site} (h : site.kind = .relReloc26) : site.width = 4 := by
  rw [width, h]
  rfl

theorem field?_eq {site : Site} {data : Bytes} (ho : 0 ≤ site.offset)
    (hs : site.offset + site.width ≤ data.size) :
    Bytes.field? data site.offset site.width = some (data.field site.span) :=
  Bytes.field?_eq ho hs

end Site

namespace Hunk

/-- The sites of a hunk in the order of its blocks. -/
def sites (hunk : Hunk) : List Site :=
  hunk.relocs.flatMap fun (kind, groups) ↦ groups.flatMap fun group ↦
    group.offsets.map fun offset ↦ ⟨kind, group.hunk, offset⟩

theorem sites_nonneg {hunk : Hunk} (h : hunk.InRange) {site : Site} (hs : site ∈ hunk.sites) :
    0 ≤ site.offset ∧ 0 ≤ site.target := by
  simp only [sites, List.mem_flatMap, List.mem_map] at hs
  obtain ⟨p, hp, group, hg, offset, ho, rfl⟩ := hs
  have hr := h.relocs p hp group hg
  exact ⟨(hr.offsets offset ho).1, hr.hunk.1⟩

end Hunk

namespace Segment

variable {addresses : List Int} {id : Nat} {segment : Segment}

theorem mem_runs (a : Int) (as : List Int) : a ∈ (runs as).map Prod.fst ↔ a ∈ as := by
  induction as with
  | nil => simp [runs]
  | cons b as ih =>
    rw [runs]
    split <;> rename_i hr
    · rw [hr] at ih
      split <;> rename_i he
      · subst he
        simp only [List.map_cons, List.mem_cons] at ih ⊢
        rw [← ih]
        tauto
      · simp only [List.map_cons, List.mem_cons] at ih ⊢
        rw [ih]
    · rw [hr] at ih
      simp_all

theorem mem_targets (segment : Segment) (target : Int) :
    target ∈ segment.targets ↔ ∃ reloc ∈ segment.relocs, reloc.target = target := by
  rw [targets, targetCounts, mem_runs, List.mem_mergeSort, List.mem_map]

/-- A segment that is relocated has known targets only, and all its relocations are applied. -/
theorem relocate_eq_ok {buffer : Bytes} (h : segment.relocate addresses id = .ok buffer) :
    (∀ reloc ∈ segment.relocs, 0 ≤ reloc.target ∧ reloc.target < addresses.length) ∧
      segment.relocs.foldlM (segment.applyReloc addresses id) segment.content = .ok buffer := by
  unfold relocate at h
  split at h <;> rename_i hu
  · cases h
  · refine ⟨fun reloc hr ↦ ?_, h⟩
    have ht := List.find?_eq_none.mp hu reloc.target ((mem_targets _ _).mpr ⟨reloc, hr, rfl⟩)
    simp only [decide_eq_true_eq, not_or, Int.not_lt, Int.not_le] at ht
    exact ht

theorem setBranch_lt (instruction : Nat) (value : Int) : setBranch instruction value < 2 ^ 32 :=
  Nat.or_lt_two_pow (Nat.lt_of_le_of_lt Nat.and_le_right (by decide))
    (Nat.lt_of_le_of_lt Nat.and_le_right (by decide))

theorem testBit_setBranch (instruction : Nat) (value : Int) {i : Nat} (hi : i < 32) :
    (setBranch instruction value).testBit i =
      if (0x03fffffc).testBit i then (value % 2 ^ 32).toNat.testBit i else instruction.testBit i := by
  have hm : (0xffffffff - branchMask).testBit i = !branchMask.testBit i := by
    have h := Nat.testBit_two_pow_sub_succ (x := branchMask) (n := 32) (by decide) i
    simpa [hi] using h
  simp only [setBranch, Nat.testBit_or, Nat.testBit_and, hm]
  cases hb : branchMask.testBit i
  · simp_all [branchMask]
  · simp_all [branchMask, Bytes.low32]

/-- What one relocation does to a content. -/
theorem applyReloc_eq_ok {site : Site} {data : Option Bytes} {before after : Bytes}
    (ho : 0 ≤ site.offset) (h : segment.applyReloc addresses id before (site.reloc data) = .ok after) :
    site.offset + site.width ≤ segment.size ∧ Bytes.SameOutside [site.span] before after ∧
      (site.kind ≠ .relReloc26 → (after.field site.span : Int) =
        patchValue addresses id (site.reloc data) % 2 ^ (8 * site.width)) ∧
      (site.kind = .relReloc26 → after.field site.span =
        setBranch (before.field site.span) (patchValue addresses id (site.reloc data))) := by
  unfold applyReloc at h
  split at h <;> rename_i hsize
  · cases h
  · split at h <;> rename_i hp
    · cases h
      refine ⟨by simpa [Site.reloc, Site.width] using hsize, ?_⟩
      by_cases hk : site.kind = .relReloc26
      · have hw := Site.width_branch hk
        rw [patch?, if_pos (show (site.reloc data).kind = .relReloc26 from hk)] at hp
        obtain ⟨instruction, hi, hp⟩ := Option.bind_eq_some_iff.mp hp
        obtain ⟨hs, hsame, hfield⟩ := Site.write_eq_some ho hp
        rw [show (site.reloc data).offset = site.offset from rfl, ← hw, Site.field?_eq ho hs] at hi
        obtain rfl := Option.some.inj hi
        refine ⟨hsame, fun hk' ↦ absurd hk hk', fun _ ↦ ?_⟩
        have hlt := setBranch_lt (before.field site.span) (patchValue addresses id (site.reloc data))
        rw [hw] at hfield
        omega
      · rw [patch?, if_neg (show ¬ (site.reloc data).kind = .relReloc26 from hk)] at hp
        obtain ⟨_, hsame, hfield⟩ := Site.write_eq_some ho hp
        exact ⟨hsame, fun _ ↦ hfield, fun hk' ↦ absurd hk' hk⟩
    · cases h

end Segment

namespace Site

variable {hunk : Hunk} {kind : SegmentKind} {stored : SegmentContent}

theorem addend?_some {site : Site} {content : Bytes} (ho : 0 ≤ site.offset)
    (hs : site.offset + site.width ≤ content.size) :
    Segment.addend? (some content) site.offset site.kind.width site.kind =
      some (if site.kind = .relReloc26 then site.displacement content else site.addend content) := by
  have hlt : ¬ (content.size : Int) < site.offset + site.kind.width.bytes := Int.not_lt.mpr hs
  rw [Segment.addend?, if_neg hlt]
  by_cases hb : site.kind = .relReloc26
  · rw [if_pos hb, if_pos hb, ← width_branch hb, field?_eq ho hs]
    rfl
  · rw [if_neg hb, if_neg hb]
    change (Bytes.field? content site.offset site.width).map (Bytes.signed site.width) = _
    rw [field?_eq ho hs, Option.map_some, Bytes.signed, Bytes.modulus_eq]
    rfl

theorem field_zeros (n : Nat) (span : Span) : (Bytes.zeros n).field span = 0 := by
  have h : ∀ m, Bytes.toNat (List.replicate m 0) = 0 := by
    intro m
    induction m with
    | zero => rfl
    | succ m ih => rw [List.replicate_succ, Bytes.toNat_cons, ih, UInt8.toNat_zero, Nat.zero_mul]
  rw [Bytes.field, Bytes.sub, Bytes.zeros, Array.extract_replicate, Array.toList_replicate, h]

/-- The stored part of a patched value, also where nothing is stored. -/
theorem reloc_addend (h : hunk.InRange) (hs : hunk.segment = some (kind, stored)) {site : Site}
    (ho : 0 ≤ site.offset) (hsize : site.offset + site.width ≤ hunk.content.size) :
    (site.reloc (Segment.ofHunk kind stored hunk).data).addend =
      if site.kind = .relReloc26 then site.displacement hunk.content
      else site.addend hunk.content := by
  by_cases hk : kind = .bss
  · obtain ⟨⟨tag, hr⟩, _⟩ := h.segment kind stored hs
    have hnone : (Segment.ofHunk kind stored hunk).data = none := by
      simp [Segment.ofHunk, Segment.storedData, hk]
    have hzero : hunk.content.field site.span = 0 := by
      have he : hunk.stored = #[] := by simp [Hunk.stored, hs, hr.bss hk]
      rw [Hunk.content, he, Array.empty_append, field_zeros]
    have ha : (site.reloc (Segment.ofHunk kind stored hunk).data).addend = 0 := by
      rw [hnone]
      rfl
    have hd : site.displacement hunk.content = 0 := by
      unfold displacement
      rw [hzero, Nat.zero_and, Int.natCast_zero, Int.zero_bmod]
    have he : site.addend hunk.content = 0 := by
      rw [addend, hzero, Int.natCast_zero, Int.zero_bmod]
    rw [ha, hd, he, ite_self]
  · rw [Segment.ofHunk_data hs hk, reloc]
    dsimp only
    rw [addend?_some ho hsize, Option.getD_some]

end Site

/-- How a hunk reads when it lies at one of the addresses and its sites are patched. -/
structure Hunk.Relocated (hunk : Hunk) (addresses : List Int) (address : Int) (buffer : Bytes) :
    Prop where
  size : (buffer.size : Int) = 4 * hunk.sizeLongs
  known : ∀ site ∈ hunk.sites, 0 ≤ site.offset ∧ 0 ≤ site.target ∧ site.target < addresses.length
  absolute : ∀ pre site post, hunk.sites = pre ++ site :: post → ¬ site.kind.pcRelative →
    (∀ later ∈ post, site.span.Apart later.span) →
    ∃ target, addresses[site.target.toNat]? = some target ∧
      (buffer.field site.span : Int) =
        (target + site.addend hunk.content) % 2 ^ (8 * site.width)
  relative : ∀ pre site post, hunk.sites = pre ++ site :: post → site.kind = .relReloc32 →
    (∀ later ∈ post, site.span.Apart later.span) →
    ∃ target, addresses[site.target.toNat]? = some target ∧
      (buffer.field site.span : Int) =
        (target + site.addend hunk.content - (address + site.offset)) % 2 ^ 32
  /-- Of an instruction only the displacement changes. -/
  branch : ∀ pre site post, hunk.sites = pre ++ site :: post → site.kind = .relReloc26 →
    (∀ other ∈ pre ++ post, site.span.Apart other.span) →
    ∃ target, addresses[site.target.toNat]? = some target ∧ ∀ i < 32,
      (buffer.field site.span).testBit i =
        if (0x03fffffc).testBit i then
          ((target + site.displacement hunk.content - (address + site.offset)) % 2 ^ 32).toNat.testBit i
        else
          (hunk.content.field site.span).testBit i
  untouched : ∀ i, (∀ site ∈ hunk.sites, ¬ site.span.Covers i) → buffer[i]? = hunk.content[i]?

namespace Segment

variable {hunk : Hunk} {kind : SegmentKind} {stored : SegmentContent} {addresses : List Int}
  {id : Nat} {address : Int} {buffer : Bytes}

theorem ofHunk_relocs (kind : SegmentKind) (stored : SegmentContent) (hunk : Hunk) :
    (ofHunk kind stored hunk).relocs =
      hunk.sites.map fun site ↦ site.reloc (ofHunk kind stored hunk).data := by
  simp only [ofHunk, Hunk.sites, List.map_flatMap, List.map_map]
  rfl

theorem foldlM_sites {segment : Segment} {sites : List Site}
    (ho : ∀ site ∈ sites, 0 ≤ site.offset) {data : Option Bytes} {before after : Bytes}
    (h : (sites.map fun site ↦ site.reloc data).foldlM (segment.applyReloc addresses id) before =
      .ok after) : Bytes.SameOutside (sites.map Site.span) before after := by
  rw [List.foldlM_map] at h
  exact Bytes.foldlM_sameOutside
    (fun site hm _ _ hr ↦ (applyReloc_eq_ok (ho site hm) hr).2.1) h

/-- The bytes that a site finds, and those it leaves, in a segment that is relocated. -/
theorem relocate_site (h : hunk.InRange) (hs : hunk.segment = some (kind, stored))
    (hr : (ofHunk kind stored hunk).relocate addresses id = .ok buffer) {pre post : List Site}
    {site : Site} (hsites : hunk.sites = pre ++ site :: post) :
    ∃ before after, Bytes.SameOutside (pre.map Site.span) hunk.content before ∧
      (ofHunk kind stored hunk).applyReloc addresses id before
        (site.reloc (ofHunk kind stored hunk).data) = .ok after ∧
      Bytes.SameOutside (post.map Site.span) after buffer := by
  have ho : ∀ other ∈ pre ++ site :: post, 0 ≤ other.offset := by
    rw [← hsites]
    exact fun other hm ↦ (Hunk.sites_nonneg h hm).1
  have hfold := (relocate_eq_ok hr).2
  rw [ofHunk_relocs, ofHunk_content h hs, hsites, List.map_append, List.map_cons] at hfold
  obtain ⟨before, after, hpre, hsite, hpost⟩ := Bytes.foldlM_split hfold
  refine ⟨before, after, foldlM_sites (fun other hm ↦ ho other ?_) hpre, hsite,
    foldlM_sites (fun other hm ↦ ho other ?_) hpost⟩
  · exact List.mem_append_left _ hm
  · exact List.mem_append_right _ (List.mem_cons_of_mem _ hm)

theorem relocate_target (h : hunk.InRange)
    (hr : (ofHunk kind stored hunk).relocate addresses id = .ok buffer) {site : Site}
    (hm : site ∈ hunk.sites) :
    0 ≤ site.offset ∧ 0 ≤ site.target ∧ site.target < addresses.length := by
  have hmem : site.reloc (ofHunk kind stored hunk).data ∈ (ofHunk kind stored hunk).relocs := by
    rw [ofHunk_relocs]
    exact List.mem_map_of_mem hm
  exact ⟨(Hunk.sites_nonneg h hm).1, (relocate_eq_ok hr).1 _ hmem⟩

theorem patchValue_eq (reloc : Relocation) {target : Int}
    (ht : addresses[reloc.target.toNat]? = some target) (ha : addresses[id]? = some address) :
    patchValue addresses id reloc =
      if reloc.pcRelative then target + reloc.addend - (address + reloc.offset)
      else target + reloc.addend := by
  rw [patchValue, List.getD_eq_getElem?_getD, List.getD_eq_getElem?_getD, ht, ha]
  rfl

/-- What a site of a relocated segment holds before the later ones are patched. -/
theorem relocate_patched (h : hunk.InRange) (hs : hunk.segment = some (kind, stored))
    (ha : addresses[id]? = some address)
    (hr : (ofHunk kind stored hunk).relocate addresses id = .ok buffer) {pre post : List Site}
    {site : Site} (hsites : hunk.sites = pre ++ site :: post)
    (hlater : ∀ later ∈ post, site.span.Apart later.span) :
    ∃ target before, addresses[site.target.toNat]? = some target ∧
      Bytes.SameOutside (pre.map Site.span) hunk.content before ∧
      (¬ site.kind.pcRelative → (buffer.field site.span : Int) =
        (target + site.addend hunk.content) % 2 ^ (8 * site.width)) ∧
      (site.kind = .relReloc32 → (buffer.field site.span : Int) =
        (target + site.addend hunk.content - (address + site.offset)) % 2 ^ 32) ∧
      (site.kind = .relReloc26 → buffer.field site.span = setBranch (before.field site.span)
        (target + site.displacement hunk.content - (address + site.offset))) := by
  obtain ⟨before, after, hpre, happ, hpost⟩ := relocate_site h hs hr hsites
  have hm : site ∈ hunk.sites := by simp [hsites]
  obtain ⟨ho, ht, hlt⟩ := relocate_target h hr hm
  have hget : addresses[site.target.toNat]? = some addresses[site.target.toNat] :=
    List.getElem?_eq_getElem (by omega)
  obtain ⟨hsize, -, hother, hbranch⟩ := applyReloc_eq_ok ho happ
  have hcontent : site.offset + site.width ≤ hunk.content.size := by
    rwa [Hunk.content_size h]
  have haddend := Site.reloc_addend h hs ho hcontent
  have hvalue := patchValue_eq (site.reloc (ofHunk kind stored hunk).data) hget ha
  have hfield : buffer.field site.span = after.field site.span :=
    hpost.field_eq (by simpa using hlater)
  rw [haddend] at hvalue
  refine ⟨_, before, hget, hpre, fun hk ↦ ?_, fun hk ↦ ?_, fun hk ↦ ?_⟩
  · have hne : site.kind ≠ .relReloc26 := fun he ↦ hk (by rw [he]; rfl)
    rw [if_neg (show ¬ (site.reloc _).pcRelative = true from hk), if_neg hne] at hvalue
    rw [hfield, hother hne, hvalue]
  · have hne : site.kind ≠ .relReloc26 := by simp [hk]
    have hpc : (site.reloc (ofHunk kind stored hunk).data).pcRelative = true := by
      simp [Site.reloc, hk, RelocKind.pcRelative]
    have hw : site.width = 4 := by simp [Site.width, hk, RelocKind.width, Width.bytes]
    rw [if_pos hpc, if_neg hne] at hvalue
    rw [hfield, hother hne, hvalue, hw]
    rfl
  · have hpc : (site.reloc (ofHunk kind stored hunk).data).pcRelative = true := by
      simp [Site.reloc, hk, RelocKind.pcRelative]
    rw [if_pos hpc, if_pos hk] at hvalue
    rw [hfield, hbranch hk, hvalue]
    rfl

theorem relocate_sameOutside (h : hunk.InRange) (hs : hunk.segment = some (kind, stored))
    (hr : (ofHunk kind stored hunk).relocate addresses id = .ok buffer) :
    Bytes.SameOutside (hunk.sites.map Site.span) hunk.content buffer := by
  have hfold := (relocate_eq_ok hr).2
  rw [ofHunk_relocs, ofHunk_content h hs] at hfold
  exact foldlM_sites (fun site hm ↦ (Hunk.sites_nonneg h hm).1) hfold

theorem relocated (h : hunk.InRange) (hs : hunk.segment = some (kind, stored))
    (ha : addresses[id]? = some address)
    (hr : (ofHunk kind stored hunk).relocate addresses id = .ok buffer) :
    hunk.Relocated addresses address buffer := by
  have hsame := relocate_sameOutside h hs hr
  constructor
  case size =>
    obtain ⟨⟨tag, hc⟩, hle⟩ := h.segment kind stored hs
    have hnonneg := hc.size.1
    rw [hsame.1, Hunk.content_size h]
    omega
  case known =>
    exact fun site hm ↦ relocate_target h hr hm
  case absolute =>
    intro pre site post hsites hk hlater
    obtain ⟨target, _, ht, -, hfield, -⟩ := relocate_patched h hs ha hr hsites hlater
    exact ⟨target, ht, hfield hk⟩
  case relative =>
    intro pre site post hsites hk hlater
    obtain ⟨target, _, ht, -, -, hfield, -⟩ := relocate_patched h hs ha hr hsites hlater
    exact ⟨target, ht, hfield hk⟩
  case branch =>
    intro pre site post hsites hk hothers
    obtain ⟨target, before, ht, hpre, -, -, hfield⟩ := relocate_patched h hs ha hr hsites
      fun later hm ↦ hothers later (List.mem_append_right _ hm)
    have hbefore : before.field site.span = hunk.content.field site.span :=
      hpre.field_eq (by
        simpa using fun other hm ↦ hothers other (List.mem_append_left _ hm))
    refine ⟨target, ht, fun i hi ↦ ?_⟩
    rw [hfield hk, testBit_setBranch _ _ hi, hbefore]
  case untouched =>
    exact fun i hi ↦ hsame.2 i (by simpa using hi)

end Segment

namespace Image

variable {data : Bytes} {hunks : List Hunk} {image : Image} {addresses : List Int}
  {buffers : List Bytes}

/-- The next segment, behind the ones that are done. -/
def relocateStep (addresses : List Int) (done : Array Bytes) (segment : Segment) :
    Action Unit RelocationError (Array Bytes) := do
  let id := done.size
  let data ← Action.ofExcept (segment.relocate addresses id)
  if !segment.relocs.isEmpty then
    let address := Text.address (addresses.getD id 0)
    Action.debug s!"applied {segment.relocs.length} relocations to hunk #{id} at {address}"
  return done.push data

theorem run_relocateStep (addresses : List Int) (done : Array Bytes) (segment : Segment) :
    run (relocateStep addresses done segment) () =
      ((segment.relocate addresses done.size).map done.push, ()) := by
  rw [relocateStep, Action.run_bind, Action.run_ofExcept]
  cases segment.relocate addresses done.size with
  | error e => rfl
  | ok data =>
    dsimp only
    split <;> rfl

theorem relocated_of_foldl {segments : List Segment} {found : Array Bytes}
    (h : run (Action.foldl (relocateStep addresses) #[] segments) () = (.ok found, ())) :
    found.size = segments.length ∧ ∀ (id : Nat) (segment : Segment), segments[id]? = some segment →
      ∃ buffer, found[id]? = some buffer ∧ segment.relocate addresses id = .ok buffer := by
  refine Action.foldl_push (fun id segment buffer ↦ segment.relocate addresses id = .ok buffer) ?_ h
  intro found segment _ found' _ hr
  rw [run_relocateStep, Prod.mk.injEq] at hr
  cases hb : segment.relocate addresses found.size with
  | error e =>
    rw [hb] at hr
    cases hr.1
  | ok buffer =>
    rw [hb] at hr
    cases hr.1
    exact ⟨buffer, rfl, rfl⟩

theorem relocate_segments (h : run (image.relocate addresses) () = (.ok buffers, ())) :
    image.segments.length = addresses.length ∧ buffers.length = image.segments.length ∧
      ∀ (id : Nat) (segment : Segment), image.segments[id]? = some segment →
        ∃ buffer, buffers[id]? = some buffer ∧ segment.relocate addresses id = .ok buffer := by
  obtain ⟨hlength, h⟩ := Action.run_guard_eq_ok.mp h
  obtain ⟨found, _, hf, h⟩ := Action.run_bind_eq_ok.mp h
  cases h
  obtain ⟨hsize, hbuffers⟩ := relocated_of_foldl hf
  refine ⟨not_not.mp hlength, by simpa using hsize, fun id segment hi ↦ ?_⟩
  obtain ⟨buffer, hb, hr⟩ := hbuffers id segment hi
  exact ⟨buffer, by simpa using hb, hr⟩

theorem IsRead.filled (hi : IsRead data hunks image)
    (h : (image.relocate addresses ()).result = .ok buffers) : image.Filled buffers := by
  obtain ⟨-, hlength, hsegments⟩ := relocate_segments (Action.result_eq h)
  refine ⟨hlength, fun id segment buffer hs hb ↦ ?_⟩
  obtain ⟨buffer', hb', hr⟩ := hsegments id segment hs
  cases hb.symm.trans hb'
  obtain ⟨hunk, kind, stored, hrange, hk, rfl⟩ := hi.of_mem (List.mem_of_getElem? hs)
  rw [(Segment.relocate_sameOutside hrange hk hr).1, Hunk.content_size hrange]
  rfl

/-- Each segment of an image that was read has its own size and reads as its hunk, with the
addresses of the targets in its sites. -/
theorem relocate_hunks (hi : IsRead data hunks image)
    (h : (image.relocate addresses ()).result = .ok buffers) :
    addresses.length = image.segments.length ∧ buffers.length = image.segments.length ∧
      hunks.length = image.segments.length ∧
      ∀ (id : Nat) (hunk : Hunk), hunks[id]? = some hunk → ∃ segment address buffer,
        image.segments[id]? = some segment ∧ addresses[id]? = some address ∧
          buffers[id]? = some buffer ∧ buffer.size = segment.size ∧
          hunk.Relocated addresses address buffer := by
  obtain ⟨⟨hcount, hbuilt⟩, hrange⟩ := hi.builtOf
  obtain ⟨haddresses, hbuffers, hsegments⟩ := relocate_segments (Action.result_eq h)
  refine ⟨haddresses.symm, hbuffers, hcount.symm, fun id hunk hg ↦ ?_⟩
  obtain ⟨kind, stored, hs, hsegment⟩ := hbuilt id hunk hg
  obtain ⟨buffer, hb, hr⟩ := hsegments id _ hsegment
  have hlt : id < addresses.length := by
    have hlt := (List.getElem?_eq_some_iff.mp hg).1
    omega
  have ha : addresses[id]? = some addresses[id] := List.getElem?_eq_getElem hlt
  have hrel := Segment.relocated (hrange hunk (List.mem_of_getElem? hg)) hs ha hr
  refine ⟨_, _, buffer, hsegment, ha, hb, ?_, hrel⟩
  have hsize := hrel.size
  simp only [Segment.ofHunk]
  omega

/-- A program whose code holds the address of the variable behind it and branches to it. -/
def sample : Bytes :=
  ([0x3f3, 0, 2, 0, 1, 2, 1, 0x3e9, 2, 4, 0x48000001, 0x3ec, 1, 1, 0, 0, 0x4ec, 1, 1, 4, 0, 0x3f2,
    0x3eb, 1, 0x3f2].flatMap (Bytes.ofNat 4)).toArray

def sampleCode : Hunk :=
  { Hunk.empty with
    segment := some (.code, ⟨2, 0, some 36, some #[0, 0, 0, 4, 0x48, 0, 0, 1]⟩)
    relocs := [(.reloc32, [⟨1, [0]⟩]), (.relReloc26, [⟨1, [4]⟩])]
    sizeLongs := 2 }

def sampleVariable : Hunk :=
  { Hunk.empty with segment := some (.bss, ⟨1, 0, none, none⟩), sizeLongs := 1 }

def sampleImage : Image where
  kind := .program
  segments :=
    [.ofHunk .code ⟨2, 0, some 36, some #[0, 0, 0, 4, 0x48, 0, 0, 1]⟩ sampleCode,
      .ofHunk .bss ⟨1, 0, none, none⟩ sampleVariable]

theorem relocate_hunks_sample : IsRead sample [sampleCode, sampleVariable] sampleImage ∧
    (sampleImage.relocate [0x1000, 0x2000] ()).result =
      .ok [#[0, 0, 0x20, 4, 0x48, 0, 0x0f, 0xfd], #[0, 0, 0, 0]] ∧
    sampleCode.Relocated [0x1000, 0x2000] 0x1000 #[0, 0, 0x20, 4, 0x48, 0, 0x0f, 0xfd] ∧
    sampleVariable.Relocated [0x1000, 0x2000] 0x2000 #[0, 0, 0, 0] := by
  have hi : IsRead sample [sampleCode, sampleVariable] sampleImage := ⟨_, rfl, rfl, rfl⟩
  have hr : (sampleImage.relocate [0x1000, 0x2000] ()).result =
      .ok [#[0, 0, 0x20, 4, 0x48, 0, 0x0f, 0xfd], #[0, 0, 0, 0]] := by cbv
  obtain ⟨_, _, _, h⟩ := relocate_hunks hi hr
  obtain ⟨_, _, _, _, hcode, hbuffer, _, hrel⟩ := h 0 sampleCode rfl
  obtain ⟨_, _, _, _, hvariable, hbuffer', _, hrel'⟩ := h 1 sampleVariable rfl
  cases hcode
  cases hbuffer
  cases hvariable
  cases hbuffer'
  exact ⟨hi, hr, hrel, hrel'⟩

end Image

end Hunks
