import Mathlib
import Hunks.Proofs.Host.History
import Hunks.Proofs.Memory.Filled

namespace Hunks

open Hunks.Action (run)

namespace Request

variable {memory memory' : Memory} {request : Request}

/-- The plan of the region that a request asks for. -/
def plan? : Request → Option Region.Plan
  | create plan => some plan
  | _ => none

/-- No request takes bytes away from a region, and only a new one whose plan does not fit gets too many. -/
theorem apply_filled (h : memory.Arranged) (hstocked : ∀ region ∈ memory, region.Stocked)
    (hp : request.InPlace memory) (ha : request.apply memory = .ok memory') :
    (∀ region ∈ memory', region.Stocked) ∧
      ((∀ region ∈ memory', region.Filled) ↔
        (∀ region ∈ memory, region.Filled) ∧ ∀ plan ∈ request.plan?, plan.Fits) := by
  cases request with
  | create plan =>
    obtain ⟨region, hc⟩ := map_snd_eq_ok ha
    have hcreated := Memory.create_eq_ok hc
    simp only [hcreated.memory, Memory.mem_insert, forall_eq_or_imp, hcreated.filled_iff, plan?, Option.mem_def,
      Option.some.injEq, forall_eq']
    exact ⟨⟨hcreated.stocked, hstocked⟩, and_comm⟩
  | write address bytes =>
    obtain ⟨region, data, hr, -, -, hd, rfl⟩ := Memory.write_eq_ok ha
    refine ⟨(h.forall_setData hr _ ?_).mpr hstocked, (h.forall_setData hr _ ?_).trans (by simp [plan?])⟩
    · simp [Region.Stocked, hd]
    · simp [Region.Filled, hd]
  | join first second =>
    obtain ⟨region, hj⟩ := map_snd_eq_ok ha
    obtain ⟨-, hinit, hregion, -⟩ := Memory.join_eq_ok hj
    have hfirst := hstocked first hp.1
    have hsecond := hstocked second hp.2
    obtain ⟨hjoined, hfilled⟩ := Region.filled_join hinit hfirst hsecond hregion
    exact ⟨(h.forall_join hp.1 hp.2 hj (iff_of_true hjoined ⟨hfirst, hsecond⟩)).mpr hstocked,
      (h.forall_join hp.1 hp.2 hj hfilled).trans (by simp [plan?])⟩
  | convert region fill =>
    obtain ⟨other, hc⟩ := map_snd_eq_ok ha
    rcases Memory.convert_eq_ok hc with ⟨-, rfl⟩ | ⟨hblank, rfl⟩
    · exact ⟨hstocked, by simp [plan?]⟩
    · have hpos := h.positive region hp
      refine ⟨(h.forall_setData hp _ ?_).mpr hstocked, (h.forall_setData hp _ ?_).trans (by simp [plan?])⟩
      · simp [Region.Stocked, hblank]
      · simp [Region.Filled, hblank, hpos.le]

end Request

/-- The plan of the region that a call asks for. -/
def Call.plan? : Call → Option Region.Plan
  | change request => request.plan?
  | _ => none

theorem Call.eq_change_of_plan? {call : Call} {plan : Region.Plan} (h : call.plan? = some plan) :
    ∃ request, call = .change request := by
  cases call <;> first | cases h | exact ⟨_, rfl⟩

namespace Host

variable {host : Host} {limits : List (Operation × Nat)} {deeds : List (Call × Except AccessError Unit)}

namespace History

theorem filled_iff (h : History ⟨.empty, limits⟩ deeds host) :
    (∀ region ∈ host.program.memory, region.Stocked) ∧
      ((∀ region ∈ host.program.memory, region.Filled) ↔
        ∀ plan ∈ (worked deeds).filterMap Call.plan?, plan.Fits) := by
  induction h with
  | nil => exact ⟨List.forall_mem_nil _, iff_of_true (List.forall_mem_nil _) (List.forall_mem_nil _)⟩
  | limit limits _ ih => exact ih
  | @perform deeds host call h hp ih =>
    obtain ⟨hstocked, hfilled⟩ := ih
    rw [worked_append, List.filterMap_append, List.forall_mem_append, ← hfilled]
    rcases call.memory_of_run host with ⟨request, rfl, hok, ha⟩ | ⟨hno, hm⟩
    · have hstep := Request.apply_filled h.arranged hstocked hp ha
      refine ⟨hstep.1, hstep.2.trans (and_congr_right' ?_)⟩
      simp [mem_worked, hok, Call.plan?]
    · rw [hm]
      refine ⟨hstocked, (and_iff_left ?_).symm⟩
      simp only [List.mem_filterMap, mem_worked]
      rintro plan ⟨_, ⟨rfl, hok⟩, hplan⟩
      obtain ⟨request, rfl⟩ := Call.eq_change_of_plan? hplan
      exact absurd rfl (hno hok request)

/-- Regions that are initialized have just the bytes that their sizes say, exactly if none was created from more
bytes than the size that was given with them. Then what a search finds lies in one of them, and regions that are
joined keep each of their bytes at its address. -/
theorem regions_filled (h : History ⟨.empty, limits⟩ deeds host) :
    ((∀ region ∈ host.program.memory, ∀ data ∈ region.data, (data.size : Int) = region.size) ↔
      ∀ plan ∈ (worked deeds).filterMap Call.plan?, plan.Fits) ∧
    ((∀ plan ∈ (worked deeds).filterMap Call.plan?, plan.Fits) →
      (∀ start pattern address host', run (find start pattern) host = (.ok (some address), host') →
        ∃ region ∈ host.program.memory, region.contains address ∧ address + pattern.length ≤ region.stop) ∧
      ∀ first ∈ host.program.memory, ∀ second ∈ host.program.memory, ∀ joined host',
        run (join (some first) (some second)) host = (.ok joined, host') →
        ∀ region, region = first ∨ region = second → ∀ data ∈ region.data, ∀ i, ∀ hi : i < data.size,
          joined.contains (region.start + i) ∧ joined.cell? (region.start + i) = some (.byte data[i])) := by
  have harranged := h.arranged
  obtain ⟨-, hiff⟩ := h.filled_iff
  refine ⟨hiff, fun hfits ↦ ?_⟩
  have hfilled := hiff.mpr hfits
  constructor
  · intro start pattern address host' hfind
    exact Memory.find?_bounds (Except.ok.inj (ask_eq_ok hfind).1) harranged.positive hfilled
  · intro first hfirst second hsecond joined host' hjoin region hr data hd i hi
    obtain ⟨hstop, hinit, hjoined, -⟩ := Memory.join_eq_ok (changeMemory_eq_ok hjoin)
    exact Region.cell?_of_join hstop hinit (hfilled first hfirst) (hfilled second hsecond)
      ⟨(harranged.positive first hfirst).le, (harranged.positive second hsecond).le⟩ hjoined hr hd hi

/-- A region with more room than data, one with as much, and a request that fails, before both are joined. -/
theorem regions_filled_sample :
    let calls : List Call :=
      [.change (.create { name := "a", address := 0x1000, data := some #[1, 2, 3], size := some 4 }),
        .change (.create { name := "b", address := 0x1004, data := some #[4, 5] }), .change (.write 0x1000 #[9])]
    let host := calls.foldl (fun host call ↦ (run call.perform host).2) ⟨.empty, [(.setBytes, 0)]⟩
    let first : Region := ⟨"a", 0x1000, 4, some #[1, 2, 3, 0], true, false, false⟩
    let second : Region := ⟨"b", 0x1004, 2, some #[4, 5], true, false, false⟩
    let joined : Region := ⟨"a", 0x1000, 6, some #[1, 2, 3, 0, 4, 5], true, false, false⟩
    History ⟨.empty, [(.setBytes, 0)]⟩ (calls.zip [.ok (), .ok (), .error (.injected .setBytes)]) host ∧
      host.program.memory = [first, second] ∧
      (∀ region ∈ host.program.memory, ∀ data ∈ region.data, (data.size : Int) = region.size) ∧
      (run (find 0x1000 [5]) host).1 = .ok (some 0x1005) ∧
      (∃ region ∈ host.program.memory, region.contains 0x1005 ∧ 0x1005 + 1 ≤ region.stop) ∧
      (run (join (some first) (some second)) host).1 = .ok joined ∧ joined.contains (0x1004 + 1) ∧
      joined.cell? (0x1004 + 1) = some (.byte 5) := by
  intro calls host first second joined
  have hstart : History ⟨.empty, [(.setBytes, 0)]⟩ [] _ := .nil
  have hperformed := ((hstart.perform calls[0] trivial).perform calls[1] trivial).perform calls[2] trivial
  have h : History ⟨.empty, _⟩ (calls.zip [.ok (), .ok (), .error (.injected .setBytes)]) host := hperformed
  obtain ⟨hiff, hbounds⟩ := h.regions_filled
  have hfits := hiff.mp (by decide)
  obtain ⟨hfind, hjoin⟩ := hbounds hfits
  have hfound := Prod.ext (x := run (find 0x1000 [5]) host) (y := (.ok (some 0x1005), _)) (by decide) rfl
  have hjoined := Prod.ext (x := run (join (some first) (some second)) host) (y := (.ok joined, _)) (by decide) rfl
  obtain ⟨hcontains, hcell⟩ := hjoin first (by decide) second (by decide) joined _ hjoined second (Or.inr rfl)
    #[4, 5] rfl 1 (by decide)
  exact ⟨h, by decide, hiff.mpr hfits, by decide, hfind _ _ _ _ hfound, by decide, hcontains, hcell⟩

end History

/-- The first region has a byte more than its size: a search finds it outside of the region, and a join moves the
bytes of the second region up by one. -/
theorem bytes_beyond_end :
    let calls : List Call :=
      [.change (.create { name := "a", address := 0x1000, data := some #[1, 2, 3], size := some 2 }),
        .change (.create { name := "b", address := 0x1002, data := some #[4, 5] })]
    let host := calls.foldl (fun host call ↦ (run call.perform host).2) (.ofProgram .empty)
    let first : Region := ⟨"a", 0x1000, 2, some #[1, 2, 3], true, false, false⟩
    let second : Region := ⟨"b", 0x1002, 2, some #[4, 5], true, false, false⟩
    let joined : Region := ⟨"a", 0x1000, 4, some #[1, 2, 3, 4, 5], true, false, false⟩
    History (.ofProgram .empty) (calls.map (·, .ok ())) host ∧ host.program.memory = [first, second] ∧
      (run (find 0x1000 [3]) host).1 = .ok (some 0x1002) ∧ ¬ first.contains 0x1002 ∧
      second.cell? 0x1002 = some (.byte 4) ∧
      (run (join (some first) (some second)) host).1 = .ok joined ∧ joined.cell? 0x1002 = some (.byte 3) := by
  intro calls host first second joined
  have hstart : History (.ofProgram .empty) [] _ := .nil
  have hperformed := (hstart.perform calls[0] trivial).perform calls[1] trivial
  exact ⟨hperformed, by decide, by decide, by decide, by decide, by decide, by decide⟩

end Host

end Hunks
