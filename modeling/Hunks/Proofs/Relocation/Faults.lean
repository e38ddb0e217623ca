import Mathlib
import Hunks.Proofs.Relocation

namespace Hunks

open Hunks.Action (run)

/-- A run of steps that fails has taken some of them and fails in the next one. -/
theorem of_foldlM_eq_error {α β ε : Type} {f : β → α → Except ε β} {as : List α} {b : β} {e : ε}
    (h : as.foldlM f b = .error e) :
    ∃ done a rest b', as = done ++ a :: rest ∧ done.foldlM f b = .ok b' ∧ f b' a = .error e := by
  induction as generalizing b with
  | nil => cases h
  | cons a as ih =>
    rw [List.foldlM_cons] at h
    cases hf : f b a with
    | error e' =>
      rw [hf] at h
      cases h
      exact ⟨[], a, as, b, rfl, rfl, hf⟩
    | ok b' =>
      rw [hf] at h
      obtain ⟨done, a', rest, b'', rfl, hdone, herror⟩ := ih h
      refine ⟨a :: done, a', rest, b'', rfl, ?_, herror⟩
      rw [List.foldlM_cons, hf]
      exact hdone

namespace Relocation

/-- The target is one of so many segments. -/
def Known (count : Nat) (reloc : Relocation) : Prop :=
  reloc.target < count

/-- All that is patched lies in a segment of this size. -/
def Inside (size : Nat) (reloc : Relocation) : Prop :=
  reloc.offset + reloc.width.bytes ≤ size

end Relocation

namespace Segment

variable {addresses : List Int} {id count : Nat} {segment : Segment} {hunk : Hunk} {kind : SegmentKind}
  {stored : SegmentContent} {e : RelocationError}

/-- A segment, one of so many, with nothing in the way of its relocations. -/
def Relocatable (count : Nat) (segment : Segment) : Prop :=
  ∀ reloc ∈ segment.relocs, reloc.Known count ∧ reloc.Inside segment.size

/-- The error that tells what is in the way. Of unknown targets it is the least one, whatever the order
of the blocks, and with none of them the first relocation that leads out of the segment. -/
inductive Fault (segment : Segment) (count id : Nat) : RelocationError → Prop
  | unknown {target : Int} :
      IsLeast {target | ∃ reloc ∈ segment.relocs, ¬ reloc.Known count ∧ reloc.target = target} target →
      Fault segment count id (.unknownTarget id target)
  | outside {done rest : List Relocation} {reloc : Relocation} :
      (∀ reloc ∈ segment.relocs, reloc.Known count) → segment.relocs = done ++ reloc :: rest →
      (∀ earlier ∈ done, earlier.Inside segment.size) → ¬ reloc.Inside segment.size →
      Fault segment count id (.outOfBounds id reloc.offset reloc.width segment.size)

theorem Fault.not_relocatable (h : Fault segment count id e) : ¬ segment.Relocatable count := by
  intro hall
  cases h with
  | unknown hleast =>
    obtain ⟨⟨reloc, hm, hunknown, -⟩, -⟩ := hleast
    exact hunknown (hall reloc hm).1
  | outside _ hsplit _ hout => exact hout (hall _ (by simp [hsplit])).2

theorem Fault.kind_iff (h : Fault segment count id e) :
    (e.kind = .unknownTarget ↔ ∃ reloc ∈ segment.relocs, ¬ reloc.Known count) ∧
      (e.kind = .relocOutOfBounds ↔ ∀ reloc ∈ segment.relocs, reloc.Known count) := by
  cases h with
  | unknown hleast =>
    obtain ⟨⟨reloc, hm, hunknown, -⟩, -⟩ := hleast
    refine ⟨iff_of_true rfl ⟨reloc, hm, hunknown⟩, iff_of_false (fun hk ↦ nomatch hk) fun hall ↦ ?_⟩
    exact hunknown (hall reloc hm)
  | outside hknown _ _ _ =>
    exact ⟨iff_of_false (fun hk ↦ nomatch hk) fun ⟨reloc, hm, hunknown⟩ ↦ hunknown (hknown reloc hm),
      iff_of_true rfl hknown⟩

theorem runs_sublist (as : List Int) : ((runs as).map Prod.fst).Sublist as := by
  induction as with
  | nil => exact .slnil
  | cons a as ih =>
    rw [runs]
    split <;> rename_i hr
    · rw [hr] at ih
      split <;> rename_i he
      · subst he
        exact ih.cons _
      · exact ih.cons_cons a
    · exact (List.nil_sublist as).cons_cons a

theorem targets_pairwise (segment : Segment) : segment.targets.Pairwise (· ≤ ·) := by
  have hsorted : (segment.relocs.map Relocation.target).mergeSort.Pairwise
      fun a b ↦ decide (a ≤ b) = true :=
    List.pairwise_mergeSort (fun a b c ↦ by simpa using le_trans) (fun a b ↦ by simpa using le_total a b) _
  exact (hsorted.sublist (runs_sublist _)).imp fun h ↦ by simpa using h

/-- The targets are looked through in their order, so the unknown one that is found is the least. -/
theorem isLeast_of_unknownTarget? (hn : ∀ reloc ∈ segment.relocs, 0 ≤ reloc.target) {target : Int}
    (h : segment.unknownTarget? count = some target) :
    IsLeast {target | ∃ reloc ∈ segment.relocs, ¬ reloc.Known count ∧ reloc.target = target} target := by
  obtain ⟨hbad, front, back, htargets, hfront⟩ := List.find?_eq_some_iff_append.mp h
  have hm : target ∈ segment.targets := by simp [htargets]
  obtain ⟨reloc, hr, rfl⟩ := (mem_targets _ _).mp hm
  have hpairwise := segment.targets_pairwise
  rw [htargets, List.pairwise_append, List.pairwise_cons] at hpairwise
  constructor
  · refine ⟨reloc, hr, ?_, rfl⟩
    have hnonneg := hn reloc hr
    simp only [decide_eq_true_eq] at hbad
    simp only [Relocation.Known]
    omega
  · rintro _ ⟨other, ho, hunknown, rfl⟩
    have hother : other.target ∈ segment.targets := (mem_targets _ _).mpr ⟨other, ho, rfl⟩
    rw [htargets, List.mem_append, List.mem_cons] at hother
    rcases hother with hother | hother | hother
    · have hgood := hfront _ hother
      simp only [Relocation.Known] at hunknown
      simp only [Bool.not_eq_true', decide_eq_false_iff_not, not_or] at hgood
      omega
    · exact hother.ge
    · exact hpairwise.2.1.1 _ hother

theorem size_le_content (segment : Segment) : segment.size ≤ segment.content.size := by
  rw [content, Array.size_append, Bytes.size_zeros]
  omega

theorem exists_patch? {site : Site} {data : Bytes} (content : Option Bytes) (value : Int)
    (ho : 0 ≤ site.offset) (hs : site.offset + site.width ≤ data.size) :
    ∃ after, patch? data (site.reloc content) value = some after := by
  have hwrite : ∀ value, ∃ after, Bytes.write? data site.offset site.kind.width value = some after := by
    intro value
    have hplace : Bytes.place? data site.offset site.kind.width.bytes = some site.offset.toNat :=
      Bytes.place?_eq ho hs
    rw [Bytes.write?, hplace]
    exact ⟨_, rfl⟩
  by_cases hk : site.kind = .relReloc26
  · have hfield := Site.field?_eq ho hs
    rw [Site.width_branch hk] at hfield
    rw [patch?, if_pos (show (site.reloc content).kind = .relReloc26 from hk),
      show (site.reloc content).offset = site.offset from rfl, hfield]
    exact hwrite _
  · rw [patch?, if_neg (show ¬ (site.reloc content).kind = .relReloc26 from hk)]
    exact hwrite value

/-- A site in its segment can always be patched. -/
theorem applyReloc_eq_error {site : Site} {content : Option Bytes} {data : Bytes}
    (ho : 0 ≤ site.offset) (hs : segment.size ≤ data.size)
    (h : segment.applyReloc addresses id data (site.reloc content) = .error e) :
    ¬ (site.reloc content).Inside segment.size ∧
      e = .outOfBounds id site.offset site.kind.width segment.size := by
  unfold applyReloc at h
  split at h <;> rename_i hsize
  · cases h
    exact ⟨not_le.mpr hsize, rfl⟩
  · have hinside : site.offset + site.width ≤ segment.size := not_lt.mp hsize
    obtain ⟨after, hafter⟩ := exists_patch? content
      (patchValue addresses id (site.reloc content)) ho (hinside.trans (by exact_mod_cast hs))
    rw [hafter] at h
    cases h

theorem inside_of_foldlM {sites : List Site} (ho : ∀ site ∈ sites, 0 ≤ site.offset) {data : Option Bytes}
    {before after : Bytes}
    (h : (sites.map fun site ↦ site.reloc data).foldlM (segment.applyReloc addresses id) before = .ok after) :
    ∀ reloc ∈ sites.map (fun site ↦ site.reloc data), reloc.Inside segment.size := by
  intro reloc hm
  obtain ⟨site, hsite, rfl⟩ := List.mem_map.mp hm
  obtain ⟨front, back, rfl⟩ := List.append_of_mem hsite
  rw [List.map_append, List.map_cons] at h
  obtain ⟨_, _, -, happly, -⟩ := Bytes.foldlM_split h
  exact (applyReloc_eq_ok (ho site hsite) happly).1

theorem relocatable_of_relocate {buffer : Bytes} (h : hunk.InRange)
    (hr : (ofHunk kind stored hunk).relocate addresses id = .ok buffer) :
    (ofHunk kind stored hunk).Relocatable addresses.length := by
  obtain ⟨hknown, hfold⟩ := relocate_eq_ok hr
  intro reloc hm
  refine ⟨(hknown reloc hm).2, ?_⟩
  rw [ofHunk_relocs] at hfold hm
  exact inside_of_foldlM (fun site hs ↦ (Hunk.sites_nonneg h hs).1) hfold reloc hm

theorem target_nonneg (h : hunk.InRange) {reloc : Relocation}
    (hm : reloc ∈ (ofHunk kind stored hunk).relocs) : 0 ≤ reloc.target := by
  rw [ofHunk_relocs] at hm
  obtain ⟨site, hs, rfl⟩ := List.mem_map.mp hm
  exact (Hunk.sites_nonneg h hs).2

/-- The error of a segment that was read tells what is in the way of its relocations. -/
theorem relocate_fault (h : hunk.InRange)
    (hr : (ofHunk kind stored hunk).relocate addresses id = .error e) :
    (ofHunk kind stored hunk).Fault addresses.length id e := by
  rw [relocate] at hr
  split at hr <;> rename_i hu
  · cases hr
    exact .unknown (isLeast_of_unknownTarget? (fun reloc ↦ target_nonneg h) hu)
  · have hknown : ∀ reloc ∈ (ofHunk kind stored hunk).relocs, reloc.Known addresses.length := by
      intro reloc hm
      have hgood := List.find?_eq_none.mp hu reloc.target ((mem_targets _ _).mpr ⟨reloc, hm, rfl⟩)
      simp only [decide_eq_true_eq, not_or, not_le] at hgood
      exact hgood.2
    obtain ⟨done, reloc, rest, before, hsplit, hdone, hlast⟩ := of_foldlM_eq_error hr
    obtain ⟨front, back, hsites, rfl, hback⟩ := List.map_eq_append_iff.mp ((ofHunk_relocs ..).symm.trans hsplit)
    obtain ⟨site, post, rfl, rfl, rfl⟩ := List.map_eq_cons_iff.mp hback
    have ho : ∀ other ∈ front ++ site :: post, 0 ≤ other.offset := fun other hm ↦
      (Hunk.sites_nonneg h (hsites ▸ hm)).1
    have hfront : ∀ other ∈ front, 0 ≤ other.offset := fun other hm ↦ ho other (List.mem_append_left _ hm)
    have hsize : (ofHunk kind stored hunk).size ≤ before.size := by
      rw [(foldlM_sites hfront hdone).1]
      exact size_le_content _
    -- what stands in front of the failing site was applied, so it is the first that leads out
    obtain ⟨hout, rfl⟩ := applyReloc_eq_error (ho site (by simp)) hsize hlast
    exact .outside hknown hsplit (inside_of_foldlM hfront hdone) hout

end Segment

namespace Image

variable {data : Bytes} {hunks : List Hunk} {image : Image} {addresses : List Int}

theorem relocate_of_length_ne (hne : addresses.length ≠ image.segments.length) :
    (image.relocate addresses ()).result =
      .error (.addressCount addresses.length image.segments.length) := by
  have hguard : image.segments.length ≠ addresses.length := fun h ↦ hne h.symm
  rw [relocate, if_pos hguard]
  rfl

theorem relocatable_of_relocate {buffers : List Bytes} (hi : IsRead data hunks image)
    (h : (image.relocate addresses ()).result = .ok buffers) :
    addresses.length = image.segments.length ∧
      ∀ segment ∈ image.segments, segment.Relocatable image.segments.length := by
  obtain ⟨hlength, -, hsegments⟩ := relocate_segments (Action.result_eq h)
  refine ⟨hlength.symm, fun segment hm ↦ ?_⟩
  obtain ⟨id, hid, rfl⟩ := List.getElem_of_mem hm
  obtain ⟨buffer, -, hr⟩ := hsegments id _ (List.getElem?_eq_getElem hid)
  obtain ⟨hunk, kind, stored, hrange, -, he⟩ := hi.of_mem hm
  rw [he] at hr ⊢
  rw [hlength]
  exact Segment.relocatable_of_relocate hrange hr

/-- An image that cannot be relocated has a first segment with a relocation in the way. -/
theorem relocate_eq_error {e : RelocationError} (hi : IsRead data hunks image)
    (hlength : addresses.length = image.segments.length)
    (h : (image.relocate addresses ()).result = .error e) :
    ∃ (id : Nat) (segment : Segment), image.segments[id]? = some segment ∧
      segment.Fault image.segments.length id e ∧
      ∀ i < id, ∀ earlier : Segment, image.segments[i]? = some earlier →
        earlier.Relocatable image.segments.length := by
  have hrun := Action.result_eq h
  rw [relocate, if_neg (not_not.mpr hlength.symm), Action.run_bind_eq_error] at hrun
  rcases hrun with hfold | ⟨_, _, -, hlast⟩
  swap
  · cases hlast
  obtain ⟨done, segment, rest, found, _, hsplit, hdone, hlast⟩ := Action.of_run_foldl_eq_error hfold
  obtain ⟨hsize, hfound⟩ := relocated_of_foldl hdone
  have hof : ∀ segment ∈ image.segments, ∃ hunk kind stored, hunk.InRange ∧
      segment = Segment.ofHunk kind stored hunk := by
    intro segment hm
    obtain ⟨hunk, kind, stored, hrange, -, he⟩ := hi.of_mem hm
    exact ⟨hunk, kind, stored, hrange, he⟩
  rw [← hlength]
  refine ⟨done.length, segment, by simp [hsplit], ?_, fun i hlt earlier hget ↦ ?_⟩
  · obtain ⟨hunk, kind, stored, hrange, rfl⟩ := hof segment (by simp [hsplit])
    have hstep := (run_relocateStep addresses found (.ofHunk kind stored hunk)).symm.trans hlast
    rw [Prod.mk.injEq, hsize] at hstep
    refine Segment.relocate_fault hrange ?_
    cases hr : (Segment.ofHunk kind stored hunk).relocate addresses done.length with
    | ok buffer =>
      rw [hr] at hstep
      cases hstep.1
    | error e' =>
      rw [hr] at hstep
      cases hstep.1
      rfl
  · rw [hsplit, List.getElem?_append_left hlt] at hget
    obtain ⟨buffer, -, hr⟩ := hfound i earlier hget
    obtain ⟨hunk, kind, stored, hrange, rfl⟩ := hof earlier (by simp [hsplit, List.mem_of_getElem? hget])
    exact Segment.relocatable_of_relocate hrange hr

theorem exists_relocate (hi : IsRead data hunks image) (hlength : addresses.length = image.segments.length)
    (hall : ∀ segment ∈ image.segments, segment.Relocatable image.segments.length) :
    ∃ buffers, (image.relocate addresses ()).result = .ok buffers := by
  cases h : (image.relocate addresses ()).result with
  | ok buffers => exact ⟨buffers, rfl⟩
  | error e =>
    obtain ⟨id, segment, hget, hf, -⟩ := relocate_eq_error hi hlength h
    exact absurd (hall segment (List.mem_of_getElem? hget)) hf.not_relocatable

/-- With an address for each segment, an image that was read is relocated exactly if nothing is in the way
of any relocation. Else the error is about the first segment where something is. All addresses that are
looked up are there. -/
theorem relocate_settled (hi : IsRead data hunks image) (addresses : List Int) :
    ((∃ buffers, (image.relocate addresses ()).result = .ok buffers) ↔
      addresses.length = image.segments.length ∧
        ∀ segment ∈ image.segments, segment.Relocatable image.segments.length) ∧
    (addresses.length ≠ image.segments.length → (image.relocate addresses ()).result =
      .error (.addressCount addresses.length image.segments.length)) ∧
    (addresses.length = image.segments.length →
      (¬ ∀ segment ∈ image.segments, segment.Relocatable image.segments.length) →
      ∃ (id : Nat) (segment : Segment) (e : RelocationError), image.segments[id]? = some segment ∧
        (image.relocate addresses ()).result = .error e ∧
        ¬ segment.Relocatable image.segments.length ∧
        (∀ i < id, ∀ earlier : Segment, image.segments[i]? = some earlier →
          earlier.Relocatable image.segments.length) ∧
        segment.Fault image.segments.length id e ∧
        (e.kind = .unknownTarget ↔
          ∃ reloc ∈ segment.relocs, ¬ reloc.Known image.segments.length) ∧
        (e.kind = .relocOutOfBounds ↔
          ∀ reloc ∈ segment.relocs, reloc.Known image.segments.length)) ∧
    (addresses.length = image.segments.length → ∀ (id : Nat) (segment : Segment),
      image.segments[id]? = some segment → segment.unknownTarget? addresses.length = none →
      (∃ own, addresses[id]? = some own) ∧ ∀ reloc ∈ segment.relocs,
        0 ≤ reloc.target ∧ ∃ target, addresses[reloc.target.toNat]? = some target) := by
  refine ⟨⟨fun ⟨buffers, h⟩ ↦ relocatable_of_relocate hi h, fun ⟨hlength, hall⟩ ↦
    exists_relocate hi hlength hall⟩, relocate_of_length_ne, fun hlength hnot ↦ ?_,
    fun hlength id segment hget hnone ↦ ?_⟩
  · cases h : (image.relocate addresses ()).result with
    | ok buffers => exact absurd (relocatable_of_relocate hi h).2 hnot
    | error e =>
      obtain ⟨id, segment, hget, hf, hearlier⟩ := relocate_eq_error hi hlength h
      exact ⟨id, segment, e, hget, rfl, hf.not_relocatable, hearlier, hf, hf.kind_iff⟩
  · have hid : id < addresses.length := hlength ▸ (List.getElem?_eq_some_iff.mp hget).1
    refine ⟨⟨_, List.getElem?_eq_getElem hid⟩, fun reloc hm ↦ ?_⟩
    obtain ⟨hunk, kind, stored, hrange, -, rfl⟩ := hi.of_mem (List.mem_of_getElem? hget)
    have hnonneg := Segment.target_nonneg hrange hm
    have hknown := List.find?_eq_none.mp hnone reloc.target ((Segment.mem_targets _ _).mpr ⟨reloc, hm, rfl⟩)
    simp only [decide_eq_true_eq, not_or, not_le] at hknown
    exact ⟨hnonneg, _, List.getElem?_eq_getElem (by omega)⟩

/-- A program whose second hunk asks for two hunks that there are not, and leads out of itself. -/
def strayed : Bytes :=
  ([0x3f3, 0, 2, 0, 1, 1, 1, 0x3e9, 1, 0, 0x3ec, 1, 1, 0, 0, 0x3f2, 0x3eb, 1, 0x3ec, 1, 7, 0, 1, 5, 2, 0,
    0x3f2].flatMap (Bytes.ofNat 4)).toArray

def strayedCode : Hunk :=
  { Hunk.empty with
    segment := some (.code, ⟨1, 0, some 36, some #[0, 0, 0, 0]⟩), relocs := [(.reloc32, [⟨1, [0]⟩])]
    sizeLongs := 1 }

def strayedVariable : Hunk :=
  { Hunk.empty with
    segment := some (.bss, ⟨1, 0, none, none⟩), relocs := [(.reloc32, [⟨7, [0]⟩, ⟨5, [2]⟩])]
    sizeLongs := 1 }

def strayedImage : Image where
  kind := .program
  segments :=
    [.ofHunk .code ⟨1, 0, some 36, some #[0, 0, 0, 0]⟩ strayedCode,
      .ofHunk .bss ⟨1, 0, none, none⟩ strayedVariable]

theorem relocate_settled_sample : IsRead strayed [strayedCode, strayedVariable] strayedImage ∧
    (strayedImage.relocate [0x1000] ()).result = .error (.addressCount 1 2) ∧
    (strayedImage.relocate [0x1000, 0x2000] ()).result = .error (.unknownTarget 1 5) ∧
    (¬ ∃ buffers, (strayedImage.relocate [0x1000, 0x2000] ()).result = .ok buffers) ∧
    (Segment.ofHunk .bss ⟨1, 0, none, none⟩ strayedVariable).Fault 2 1 (.unknownTarget 1 5) := by
  have hi : IsRead strayed [strayedCode, strayedVariable] strayedImage := ⟨_, rfl, rfl, rfl⟩
  have hresult : (strayedImage.relocate [0x1000, 0x2000] ()).result = .error (.unknownTarget 1 5) := by cbv
  obtain ⟨-, hcount, -, -⟩ := relocate_settled hi [0x1000]
  obtain ⟨hiff, -, hfirst, -⟩ := relocate_settled hi [0x1000, 0x2000]
  have hnot : ¬ ∃ buffers, (strayedImage.relocate [0x1000, 0x2000] ()).result = .ok buffers := by
    rintro ⟨buffers, h⟩
    rw [hresult] at h
    cases h
  obtain ⟨id, segment, e, hget, he, hbad, hearlier, hfault, -⟩ := hfirst rfl fun hall ↦ hnot (hiff.mpr ⟨rfl, hall⟩)
  rw [hresult] at he
  cases he
  obtain ⟨rfl, rfl⟩ : id = 1 ∧ segment = .ofHunk .bss ⟨1, 0, none, none⟩ strayedVariable := by
    cases hfault with
    | unknown hleast => exact ⟨rfl, (Option.some.inj hget).symm⟩
  exact ⟨hi, hcount (by decide), hresult, hnot, hfault⟩

end Image

end Hunks
