import Mathlib
import Hunks.Proofs.Memory

namespace Hunks

namespace Region

variable {region : Region} {cursor cursor' : Int}

/-- How often one can still go up in a region from an address, the last time out of it. -/
def room (region : Region) (cursor : Int) : Nat :=
  if cursor < region.stop then (region.stop - max region.start cursor).toNat + 1 else 0

theorem room_le (region : Region) (cursor : Int) : region.room cursor ≤ region.size.toNat + 1 := by
  rw [room]
  split
  · rw [stop]
    omega
  · omega

theorem room_anti (h : cursor ≤ cursor') : region.room cursor' ≤ region.room cursor := by
  rw [room, room]
  split <;> split <;> omega

theorem room_lt (hstop : cursor < region.stop) (hlt : cursor < cursor')
    (hstart : region.start < cursor') : region.room cursor' < region.room cursor := by
  rw [room, room, if_pos hstop]
  split <;> omega

end Region

namespace Bytes

variable {data : Bytes} {pattern : List UInt8} {start place : Nat}

/-- A search finds the first place with the pattern, among those that it looks at. -/
theorem findFrom_eq_some {fuel : Nat} (h : findFrom data pattern fuel start = some place) :
    start ≤ place ∧ place < start + fuel ∧ matchesAt data place pattern = true ∧
      ∀ i, start ≤ i → i < place → ¬ matchesAt data i pattern = true := by
  induction fuel generalizing start with
  | zero => cases h
  | succ fuel ih =>
    rw [findFrom] at h
    split at h <;> rename_i hmatch
    · cases h
      exact ⟨le_rfl, by omega, hmatch, fun i hle hlt ↦ by omega⟩
    · obtain ⟨hle, hlt, hplace, hleast⟩ := ih h
      refine ⟨by omega, by omega, hplace, fun i hi hlt' ↦ ?_⟩
      rcases hi.eq_or_lt with rfl | hbehind
      · exact hmatch
      · exact hleast i hbehind hlt'

end Bytes

namespace Memory

variable {memory : Memory} {region : Region} {cursor cursor' address : Int}

def room (memory : Memory) (cursor : Int) : Nat :=
  (memory.map (·.room cursor)).sum

/-- To go up from an address in a region takes room away. -/
theorem room_lt (hm : region ∈ memory) (hstop : cursor < region.stop) (hlt : cursor < cursor')
    (hstart : region.start < cursor') : memory.room cursor' < memory.room cursor :=
  List.sum_lt_sum _ _ (fun _ _ ↦ Region.room_anti hlt.le) ⟨region, hm, Region.room_lt hstop hlt hstart⟩

/-- Whoever reads at an address finds a region there. -/
theorem region_of_read {size : Int} {bytes : Bytes} (h : memory.read address size = .ok bytes) :
    ∃ region ∈ memory, region.start ≤ address ∧ address < region.stop := by
  obtain ⟨region, -, hat, -⟩ := of_read h
  exact ⟨region, of_regionAt? hat⟩

/-- A pattern is found in a region that is not yet behind the start of the search. -/
theorem region_of_find? {start : Int} {pattern : List UInt8}
    (h : memory.find? start pattern = some address) :
    ∃ region ∈ memory, start < region.stop ∧ region.start ≤ address ∧ start ≤ address := by
  induction memory with
  | nil => cases h
  | cons region memory ih =>
    rw [find?] at h
    split at h <;> rename_i hhere
    · cases h
      split at hhere <;> rename_i hstop
      · cases hhere
      · obtain ⟨data, -, hfind⟩ := Option.bind_eq_some_iff.mp hhere
        obtain ⟨hle, -⟩ := Bytes.findFrom_eq_some hfind
        exact ⟨region, List.mem_cons_self, by omega, by omega, by omega⟩
    · obtain ⟨other, hm, hother⟩ := ih h
      exact ⟨other, List.mem_cons_of_mem _ hm, hother⟩

end Memory

end Hunks
