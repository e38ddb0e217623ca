import Mathlib
import Hunks.Proofs.Layout
import Hunks.Proofs.Link.Events
import Hunks.Proofs.Slots

namespace Hunks

open Hunks.Action (run)

namespace Event

/-- The slot that an event takes in the one store or the other. -/
def slot? (event : Event) : Option Slot :=
  event.valueSlot?.or event.openSlot?

theorem slots_perm (events : List Event) :
    (events.filterMap valueSlot? ++ events.filterMap openSlot?).Perm (events.filterMap slot?) := by
  induction events with
  | nil => exact List.Perm.nil
  | cons event events ih =>
    cases event with
    | absolute name value => exact ih.cons _
    | definition name address => exact ih
    | reference name => exact List.perm_middle.trans (ih.cons _)

theorem slots_sublist (events : List Event) :
    ((events.filterMap slot?).map Slot.name).Sublist (events.map fun event ↦ some event.name) := by
  induction events with
  | nil => exact List.Sublist.refl []
  | cons event events ih =>
    cases event with
    | absolute name value => exact ih.cons_cons _
    | definition name address => exact ih.cons _
    | reference name => exact ih.cons_cons _

/-- Events of different names take slots of different names. -/
theorem nodup_slots {events : List Event} (h : (events.map name).Nodup) :
    ((events.filterMap valueSlot? ++ events.filterMap openSlot?).map Slot.name).Nodup := by
  have hnames := h.map (Option.some_injective String)
  rw [List.map_map] at hnames
  exact ((slots_perm events).map Slot.name).nodup_iff.mpr (hnames.sublist (slots_sublist events))

end Event

/-- Some byte of the slot at this address lies in a segment. -/
def Image.Overlaps (image : Image) (base slot : Int) : Prop :=
  ∃ place, slot ≤ place ∧ place < slot + SlotStore.slotSize ∧ image.Covers base place

theorem Image.overlaps_iff {image : Image} {base slot : Int} (h : base ≤ slot) :
    image.Overlaps base slot ↔ slot < base + image.size := by
  constructor
  · rintro ⟨place, hle, hlt, hcovers⟩
    have hin := Image.covers_iff.mp hcovers
    omega
  · intro hlt
    exact ⟨slot, le_rfl, by simp [SlotStore.slotSize], Image.covers_iff.mpr ⟨h, hlt⟩⟩

namespace Linker

/-- Where the slots of a linker lie that has linked an image at its base. The slots for values start
at a fixed distance from the base, whatever the size of the image. -/
structure Placeholders (linker : Linker) (image : Image) (base : Int) : Prop where
  /-- No name has two slots, be it in one store or in both. -/
  names : ((linker.defs.slots ++ linker.refs.slots).toList.map Slot.name).Nodup
  defs : ∀ name name' address, linker.defs.lookup? name = some address →
    linker.defs.lookup? name' = some address → name = name'
  refs : ∀ name name' address, linker.refs.lookup? name = some address →
    linker.refs.lookup? name' = some address → name = name'
  shared : ∀ i j : Nat, i < linker.defs.length → j < linker.refs.length →
    (linker.defs.addressOf i = linker.refs.addressOf j ↔ 0x10000 + 4 * i = image.size + 4 * j)
  behind : ∀ j : Nat, j < linker.refs.length → ¬ image.Overlaps base (linker.refs.addressOf j)
  inside : ∀ i : Nat, i < linker.defs.length →
    (image.Overlaps base (linker.defs.addressOf i) ↔ 0x10000 + 4 * i < image.size)

variable {image : Image} {buffers : List Bytes} {base : Int}

/-- Each store gives every name a slot of its own, and the open names lie behind the image. A slot for
a value lies in the image, or at the slot of an open name, if and only if the image reaches that
far. -/
theorem link_placeholders (h : (link image (image.layout base 0) (base + image.size)
      (start (.ofProgram .empty) buffers base (base + image.size))).result = .ok ()) :
    ∃ linker, (link image (image.layout base 0) (base + image.size)
        (start (.ofProgram .empty) buffers base (base + image.size))).state = linker ∧
      linker.Placeholders image base := by
  have hnames := link_names (steady_start ..) (Action.result_eq h)
  obtain ⟨hdefs, hrefs, hvalues, hopens⟩ := stores_start hnames
  refine ⟨_, rfl, ?_, fun _ _ _ ↦ SlotStore.lookup?_inj, fun _ _ _ ↦ SlotStore.lookup?_inj,
    fun i j _ _ ↦ ?_, fun j _ ↦ ?_, fun i _ ↦ ?_⟩
  · rw [Array.toList_append, hvalues, hopens]
    exact Event.nodup_slots (Event.nodup_firsts _ _)
  · simp only [SlotStore.addressOf, SlotStore.slotSize, hdefs, hrefs]
    omega
  · have hj : base + image.size ≤ (link image (image.layout base 0) (base + image.size)
        (start (.ofProgram .empty) buffers base (base + image.size))).state.refs.addressOf j := by
      simp only [SlotStore.addressOf, SlotStore.slotSize, hrefs]
      omega
    rw [Image.overlaps_iff (by omega)]
    omega
  · rw [Image.overlaps_iff (by simp only [SlotStore.addressOf, SlotStore.slotSize, hdefs]; omega)]
    simp only [SlotStore.addressOf, SlotStore.slotSize, hdefs]
    omega

/-- A segment that reaches one slot further than the start of the slots for values. -/
def wide : Segment :=
  { caller with
    kind := .bss
    size := 0x10004
    data := none
    definitions := [⟨"low", 1, .absolute⟩, ⟨"limit", 5, .absolute⟩]
    references := [⟨"ext", .absolute, .long, [], .ref32, none⟩] }

/-- Two names share an address, and a slot lies in the segment. -/
theorem placeholders_collide :
    let image : Image := ⟨.unit, [wide]⟩
    let linked := link image (image.layout 0x1000 0) (0x1000 + image.size)
      (start (.ofProgram .empty) [Bytes.zeros 0x10004] 0x1000 (0x1000 + image.size))
    linked.result = .ok () ∧
      linked.state.defs.lookup? "limit" = some 0x11004 ∧
      linked.state.refs.lookup? "ext" = some 0x11004 ∧
      linked.state.defs.lookup? "low" = some 0x11000 ∧ image.Overlaps 0x1000 0x11000 := by
  intro image linked
  refine ⟨by decide +kernel, by decide +kernel, by decide +kernel, by decide +kernel, ?_⟩
  exact (Image.overlaps_iff (by decide)).mpr (by decide)

theorem link_placeholders_sample :
    let image : Image := ⟨.unit, [caller, callee]⟩
    let linked := link image (image.layout 0x1000 0) (0x1000 + image.size)
      (start (.ofProgram .empty) [Bytes.zeros 12, Bytes.zeros 4] 0x1000 (0x1000 + image.size))
    linked.result = .ok () ∧ linked.state.Placeholders image 0x1000 := by
  intro image linked
  have h : linked.result = .ok () := by decide +kernel
  obtain ⟨linker, hstate, hplaceholders⟩ := link_placeholders h
  exact ⟨h, hstate ▸ hplaceholders⟩

end Linker

end Hunks
