import Mathlib
import Hunks.Proofs.Host.Requests
import Hunks.Proofs.Memory.Find

namespace Hunks

open Hunks.Action (run)

namespace Memory

variable {memory : Memory} {address start : Int} {bytes pattern : List UInt8}

/-- Memory holds just what can be read of it. -/
theorem Sound.holds_iff_read (hs : memory.Sound) (hb : bytes ≠ []) :
    memory.Holds address bytes ↔ memory.read address bytes.length = .ok bytes.toArray := by
  constructor
  · intro h
    exact h.read hs hb
  · intro h
    have hpos := List.length_pos_iff.mpr hb
    obtain ⟨region, hr, hblank, hl, hu⟩ := readable_of_read h
    obtain ⟨data, hd⟩ := Option.ne_none_iff_exists'.mp hblank
    have hread := hs.read_of_mem hr hd hl hu (by omega)
    rw [h, Int.toNat_natCast, Except.ok.injEq] at hread
    refine ⟨region, hr, hl, hu, data, hd, ?_⟩
    rw [Bytes.sub, ← hread]

/-- Where the bytes of a pattern can be read, from an address on. -/
def places (memory : Memory) (start : Int) (pattern : List UInt8) : Set Int :=
  {place | start ≤ place ∧ memory.read place pattern.length = .ok pattern.toArray}

theorem Sound.places_eq (hs : memory.Sound) (hp : pattern ≠ []) (start : Int) :
    memory.places start pattern = {place | start ≤ place ∧ memory.Holds place pattern} := by
  ext place
  simp only [places, Set.mem_ofPred_eq, hs.holds_iff_read hp]

theorem Sound.find?_eq_none_iff (hs : memory.Sound) (hp : pattern ≠ []) :
    memory.find? start pattern = none ↔ memory.places start pattern = ∅ := by
  rw [hs.places_eq hp, Set.eq_empty_iff_forall_notMem]
  constructor
  · intro h place hplace
    exact hs.not_holds_of_find? hp h hplace.1 hplace.2
  · intro h
    cases hfind : memory.find? start pattern with
    | none => rfl
    | some address => exact absurd (hs.isLeast_of_find? hp hfind).1 (h address)

theorem Sound.find?_eq_some_iff (hs : memory.Sound) (hp : pattern ≠ []) :
    memory.find? start pattern = some address ↔ IsLeast (memory.places start pattern) address := by
  constructor
  · intro h
    rw [hs.places_eq hp]
    exact hs.isLeast_of_find? hp h
  · intro hleast
    cases hfind : memory.find? start pattern with
    | none =>
      have hnone := (hs.find?_eq_none_iff hp).mp hfind
      exact absurd hleast.1 (Set.eq_empty_iff_forall_notMem.mp hnone address)
    | some found =>
      have hfound := hs.isLeast_of_find? hp hfind
      rw [← hs.places_eq hp] at hfound
      rw [hfound.unique hleast]

end Memory

namespace Host

variable {host : Host} {pattern : List UInt8}

theorem run_find (h : host.Reliable) (start : Int) (pattern : List UInt8) :
    run (find start pattern) host = (.ok (host.program.memory.find? start pattern), host) :=
  run_ask h _ _

/-- Where a program lets the bytes of a pattern be read, from an address on. -/
def matchesFrom (host : Host) (start : Int) (pattern : List UInt8) : Set Int :=
  {place | start ≤ place ∧ run (readBytes place pattern.length) host = (.ok pattern.toArray, host)}

theorem matchesFrom_eq (h : host.Reliable) (start : Int) (pattern : List UInt8) :
    host.matchesFrom start pattern = host.program.memory.places start pattern := by
  ext place
  simp only [matchesFrom, Memory.places, Set.mem_ofPred_eq, run_readBytes h, Prod.mk.injEq, and_true]

/-- A search answers with the first address from its start on at which the pattern can be read, and
with nothing just if there is none. -/
theorem Built.find_isLeast (h : host.Built) (start : Int) (hp : pattern ≠ []) :
    ∃ answer, run (find start pattern) host = (.ok answer, host) ∧
      (∀ address, answer = some address ↔ IsLeast (host.matchesFrom start pattern) address) ∧
      (answer = none ↔ host.matchesFrom start pattern = ∅) := by
  have hs := h.sound
  refine ⟨_, run_find h.reliable start pattern, fun address ↦ ?_, ?_⟩
  · rw [matchesFrom_eq h.reliable, hs.find?_eq_some_iff hp]
  · rw [matchesFrom_eq h.reliable, hs.find?_eq_none_iff hp]

/-- Four regions side by side, of which the first two are joined and the third has no content. -/
def searchedRequests : List Request :=
  let first : Region := ⟨"a", 0x1000, 2, some #[7, 1], true, false, false⟩
  let second : Region := ⟨"b", 0x1002, 2, some #[2, 1], true, false, false⟩
  [.create { name := "a", address := 0x1000, data := first.data },
    .create { name := "b", address := 0x1002, data := second.data },
    .create { name := "c", address := 0x1004, size := some 2, initialized := false },
    .create { name := "d", address := 0x1006, size := some 4 }, .write 0x1007 #[1, 2],
    .join first second]

/-- The pattern lies across the two regions that were joined, and then behind the one without content. -/
theorem find_isLeast_joined :
    let host := searchedRequests.foldl (fun host request ↦ (run request.perform host).2) (.ofProgram .empty)
    host.Built ∧ [1, 2] ≠ ([] : List UInt8) ∧
      (run (find 0x1000 [1, 2]) host).1 = .ok (some 0x1001) ∧
      IsLeast (host.matchesFrom 0x1000 [1, 2]) 0x1001 ∧
      (run (find 0x1002 [1, 2]) host).1 = .ok (some 0x1007) ∧
      IsLeast (host.matchesFrom 0x1002 [1, 2]) 0x1007 ∧
      (run (find 0x1008 [1, 2]) host).1 = .ok none ∧ host.matchesFrom 0x1008 [1, 2] = ∅ := by
  intro host
  have hbuilt : host.Built := by
    refine .perform _ (.perform _ (.perform _ (.perform _ (.perform _ (.perform _ .empty ?_) ?_) ?_) ?_) ?_) ?_ <;>
      simp only [Request.Proper] <;> decide
  have hfirst : (run (find 0x1000 [1, 2]) host).1 = .ok (some 0x1001) := by decide
  have hnext : (run (find 0x1002 [1, 2]) host).1 = .ok (some 0x1007) := by decide
  have hlast : (run (find 0x1008 [1, 2]) host).1 = .ok none := by decide
  have hp : [1, 2] ≠ ([] : List UInt8) := by decide
  obtain ⟨_, hrun, hsome, -⟩ := hbuilt.find_isLeast 0x1000 hp
  obtain ⟨_, hrun', hsome', -⟩ := hbuilt.find_isLeast 0x1002 hp
  obtain ⟨_, hrun'', -, hnone⟩ := hbuilt.find_isLeast 0x1008 hp
  rw [hrun, Except.ok.injEq] at hfirst
  rw [hrun', Except.ok.injEq] at hnext
  rw [hrun'', Except.ok.injEq] at hlast
  exact ⟨hbuilt, hp, by rw [hrun, hfirst], (hsome _).mp hfirst, by rw [hrun', hnext], (hsome' _).mp hnext,
    by rw [hrun'', hlast], hnone.mp hlast⟩

end Host

end Hunks
