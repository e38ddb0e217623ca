import Mathlib
import Hunks.Proofs.Memory.Room
import Hunks.Proofs.Resident
import Hunks.Proofs.Rounds

namespace Hunks

open Hunks.Action (run Rounds)

namespace InitData

variable {σ ε : Type} {readByte : Int → Action σ ε Nat} {address : Int} {s t : σ}

theorem le_of_readOffset {destination : Destination} {found : Option Nat × Int}
    (h : run (readOffset readByte address destination) s = (.ok found, t)) : address ≤ found.2 := by
  cases destination with
  | next =>
    cases h
    exact le_rfl
  | repeated =>
    cases h
    exact le_rfl
  | offset8 =>
    obtain ⟨_, _, -, h⟩ := Action.run_bind_eq_ok.mp h
    cases h
    dsimp only
    omega
  | offset24 =>
    obtain ⟨_, _, -, h⟩ := Action.run_bind_eq_ok.mp h
    cases h
    dsimp only
    omega

/-- A command takes at least the byte at its address. -/
theorem of_readCommand {stop : Stop → ε} {command : Command}
    (h : run (readCommand readByte stop address) s = (.ok command, t)) :
    (∃ b s', run (readByte address) s = (.ok b, s')) ∧ 0 < command.length := by
  obtain ⟨b, s', hb, h⟩ := Action.run_bind_eq_ok.mp h
  obtain ⟨-, h⟩ := Action.run_guard_eq_ok.mp h
  refine ⟨⟨b, s', hb⟩, ?_⟩
  extract_lets destination count stored at h
  split at h
  · rename_i width _
    obtain ⟨⟨offset, place⟩, _, hplace, h⟩ := Action.run_bind_eq_ok.mp h
    have hle : address + 1 ≤ place := le_of_readOffset hplace
    have hvalues : (0 : Int) ≤ stored * width := by positivity
    obtain ⟨values, _, -, h⟩ := Action.run_bind_eq_ok.mp h
    cases h
    dsimp only
    split <;> omega
  · cases h

end InitData

namespace Host

variable {host host' : Host} {α : Type}

/-- The answer to a question about memory is about the memory that there was. -/
theorem of_ask {operation : Operation} {f : Memory → Except AccessError α} {a : α}
    (h : run (ask operation fun program ↦ f program.memory) host = (.ok a, host')) :
    f host.program.memory = .ok a := by
  obtain ⟨_, middle, henter, h⟩ := Action.run_bind_eq_ok.mp h
  have hm : middle.program.memory = host.program.memory :=
    ((memory_lasting _).enter operation).of_run henter rfl
  rw [Action.run_bind, Action.run_get] at h
  dsimp only at h
  rw [Action.run_ofExcept, hm] at h
  exact congrArg Prod.fst h

end Host

namespace Resident

namespace Scanner

variable {ρ α β γ : Type} {scanner scanner' : Scanner ρ} {sources : Sources ρ}

def memory (scanner : Scanner ρ) : Memory :=
  scanner.host.program.memory

theorem of_onHost {operation : Operation} {address : Int} {x : Host.Access α} {a : α}
    (h : run (onHost operation address x) scanner = (.ok a, scanner')) :
    ∃ host', run x scanner.host = (.ok a, host') := by
  obtain ⟨host', h, -⟩ := Action.run_focus_eq_ok.mp h
  exact ⟨host', Action.run_mapError_eq_ok.mp (Action.run_mapError_eq_ok.mp h)⟩

theorem region_of_readNumber {size n : Nat} {address : Int}
    (h : run (readNumber size address) scanner = (.ok n, scanner')) :
    ∃ region ∈ scanner.memory, region.start ≤ address ∧ address < region.stop := by
  obtain ⟨_, _, h, -⟩ := Action.run_bind_eq_ok.mp h
  obtain ⟨bytes, _, h, -⟩ := Action.run_bind_eq_ok.mp h
  obtain ⟨_, h⟩ := of_onHost h
  exact Memory.region_of_read (Host.of_ask (f := (·.read address size)) h)

/-- Each further command lies behind the one before it. -/
theorem room_walkStep {found next : Int × Array InitData.Command}
    (h : run (walkStep found) scanner = (.ok (.inl next), scanner')) :
    scanner.memory.room next.1 < scanner.memory.room found.1 := by
  obtain ⟨result, _, hresult, h⟩ := Action.run_bind_eq_ok.mp h
  rw [Action.run_attempt_eq_ok] at hresult
  match result with
  | .ok command =>
    obtain ⟨⟨b, _, hb⟩, hlength⟩ := InitData.of_readCommand hresult
    obtain ⟨region, hm, hstart, hstop⟩ := region_of_readNumber (Action.run_mapError_eq_ok.mp hb)
    obtain ⟨_, _, -, h⟩ := Action.run_bind_eq_ok.mp h
    cases h
    dsimp only
    exact Memory.room_lt hm hstop (by omega) (by omega)
  | .error (.data stop) => cases h
  | .error (.scan (.host e)) => cases h
  | .error (.scan (.resolve e)) => cases h

/-- Where the table of vectors has an entry. -/
def slotOf (relative : Bool) (table : Int) (i : Nat) : Int :=
  if relative then table + (i + 1) * 2 else table + i * 4

theorem slotOf_lt (relative : Bool) (table : Int) (i : Nat) :
    slotOf relative table i < slotOf relative table (i + 1) := by
  rw [slotOf, slotOf]
  split <;> push_cast <;> omega

theorem region_of_readVector {relative : Bool} {table : Int} {i : Nat} {entry : Int × Int}
    (h : run (readVector relative table i) scanner = (.ok (some entry), scanner')) :
    ∃ region ∈ scanner.memory, region.start ≤ slotOf relative table i ∧
      slotOf relative table i < region.stop := by
  rw [readVector] at h
  rw [slotOf]
  split at h <;> rename_i hrelative
  · obtain ⟨_, _, h, -⟩ := Action.run_bind_eq_ok.mp h
    rw [if_pos hrelative]
    exact region_of_readNumber h
  · obtain ⟨_, _, h, -⟩ := Action.run_bind_eq_ok.mp h
    rw [if_neg hrelative]
    exact region_of_readNumber h

theorem size_decodeVector {library : String} {relative : Bool} {table slot target : Int}
    {found next : Option Descriptor × Array Vector}
    (h : run (decodeVector sources library relative table found slot target) scanner =
      (.ok next, scanner')) : next.2.size = found.2.size + 1 := by
  obtain ⟨_, _, -, h⟩ := Action.run_bind_eq_ok.mp h
  obtain ⟨_, _, -, h⟩ := Action.run_bind_eq_ok.mp h
  obtain ⟨_, _, -, h⟩ := Action.run_bind_eq_ok.mp h
  obtain ⟨_, _, -, h⟩ := Action.run_bind_eq_ok.mp h
  cases h
  exact Array.size_push ..

/-- Where the entry behind those that were found is. -/
def nextSlot (relative : Bool) (table : Int) (found : Option Descriptor × Array Vector) : Int :=
  slotOf relative table found.2.size

/-- Each further vector has its slot behind that of the one before it. -/
theorem room_tableStep {module : String} {relative : Bool} {table : Int}
    {found next : Option Descriptor × Array Vector}
    (h : run (tableStep sources module relative table found) scanner = (.ok (.inl next), scanner')) :
    scanner.memory.room (nextSlot relative table next) <
      scanner.memory.room (nextSlot relative table found) := by
  obtain ⟨result, _, hresult, h⟩ := Action.run_bind_eq_ok.mp h
  rw [Action.run_attempt_eq_ok] at hresult
  match result with
  | .error (.host e) => cases h
  | .error (.resolve e) => cases h
  | .ok none => cases h
  | .ok (some entry) =>
    obtain ⟨region, hm, hstart, hstop⟩ := region_of_readVector hresult
    obtain ⟨there, _, -, h⟩ := Action.run_bind_eq_ok.mp h
    split at h
    · cases h
    · obtain ⟨_, _, hvector, h⟩ := Action.run_bind_eq_ok.mp h
      cases h
      have hlt := slotOf_lt relative table found.2.size
      rw [nextSlot, nextSlot, size_decodeVector hvector]
      exact Memory.room_lt hm hstop hlt (by omega)

/-- Each further search starts behind the match before it. -/
theorem room_scanStep {found next : Int × Array Resident}
    (h : run (scanStep sources found) scanner = (.ok (.inl next), scanner')) :
    scanner.memory.room next.1 < scanner.memory.room found.1 := by
  obtain ⟨place, _, hplace, h⟩ := Action.run_bind_eq_ok.mp h
  obtain ⟨_, hplace⟩ := of_onHost hplace
  cases place with
  | none => cases h
  | some address =>
    have hfind := Host.of_ask (f := fun memory ↦ .ok (memory.find? found.1 matchWord)) hplace
    obtain ⟨region, hm, hstop, hstart, hle⟩ := Memory.region_of_find? (Except.ok.inj hfind)
    have hnext : next.1 = address + 2 := by
      obtain ⟨module, _, -, h⟩ := Action.run_bind_eq_ok.mp h
      cases module with
      | none =>
        cases h
        rfl
      | some module =>
        cases h
        rfl
    rw [hnext]
    exact Memory.room_lt hm hstop (by omega) (by omega)

theorem room_lt_roundLimit (scanner : Scanner ρ) (cursor : Int) : ∃ limit,
    run roundLimit scanner = (.ok limit, scanner) ∧ scanner.memory.room cursor < limit := by
  refine ⟨_, rfl, ?_⟩
  show scanner.memory.room cursor < scanner.memory.foldr _ 1
  generalize scanner.memory = memory
  induction memory with
  | nil => exact Nat.one_pos
  | cons region memory ih =>
    have hle := region.room_le cursor
    simp only [Memory.room, List.map_cons, List.sum_cons, List.foldr_cons] at ih ⊢
    omega

/-- A loop that goes up through memory ends, and its limit does not show. -/
theorem exists_rounds {step : β → Scan ρ (β ⊕ γ)} (cursor : β → Int)
    (hconfined : ∀ memory b, (step b).Confined (Has (·.program.memory = memory)) sources.Raises)
    (hstep : ∀ b b' (scanner scanner' : Scanner ρ), run (step b) scanner = (.ok (.inl b'), scanner') →
      scanner.memory.room (cursor b') < scanner.memory.room (cursor b))
    (b : β) (scanner : Scanner ρ) :
    ∃ r scanner', Rounds step b scanner r scanner' ∧ ∀ finish : β ⊕ γ → Scan ρ (List α),
      run (do finish (← Action.repeatUpTo (← roundLimit) step b)) scanner =
        run (do finish (.inr (← Action.ofExcept r))) scanner' := by
  obtain ⟨limit, hlimit, hlt⟩ := room_lt_roundLimit scanner (cursor b)
  obtain ⟨r, scanner', hrounds, hrun⟩ := Action.exists_rounds
    (fun b ↦ scanner.memory.room (cursor b)) (fun b ↦ (hconfined scanner.memory b).preserves)
    (fun b b' s s' hs h ↦ hs ▸ hstep b b' s s' h) rfl hlt
  refine ⟨r, scanner', hrounds, fun finish ↦ ?_⟩
  rw [Action.run_bind_ok hlimit, Action.run_bind, hrun, Action.run_bind, Action.run_ofExcept]
  cases r <;> rfl

/-- The loops of a scan do what they would do without their limits, and end. -/
structure LoopsEnd (sources : Sources ρ) (scanner : Scanner ρ) : Prop where
  commands : ∀ address, ∃ r scanner', Rounds walkStep (address, #[]) scanner r scanner' ∧
    run (walkInitData address) scanner = (r.map Array.toList, scanner')
  vectors : ∀ module table word middle, run (readNumber 2 table) scanner = (.ok word, middle) →
    ∃ r scanner', Rounds (tableStep sources module (word = 0xffff) table)
        (scanner.registry.get? (libraryOf module), #[]) middle r scanner' ∧
      run (decodeTable sources module table) scanner = (r.map Array.toList, scanner')
  modules : ∀ start, ∃ r scanner', Rounds (scanStep sources) (start, #[]) scanner r scanner' ∧
    run (scan sources start) scanner = (r.map Array.toList, scanner')

theorem loopsEnd (sources : Sources ρ) (scanner : Scanner ρ) : LoopsEnd sources scanner where
  commands address := by
    have hconfined : ∀ memory found, (walkStep (ρ := ρ) found).Confined
        (Has (·.program.memory = memory)) sources.Raises :=
      fun memory found ↦ confined_of_abreast
        (walkStep_abreast (Host.memory_lasting memory).noting.seen found) fun _ _ ↦ Sources.Blames.raises
    obtain ⟨r, scanner', hrounds, hrun⟩ := exists_rounds Prod.fst hconfined
      (fun _ _ _ _ ↦ room_walkStep) (address, #[]) scanner
    refine ⟨r, scanner', hrounds, (hrun _).trans ?_⟩
    cases r <;> rfl
  vectors module table word middle hword := by
    obtain ⟨r, scanner', hrounds, hrun⟩ := exists_rounds (nextSlot (word = 0xffff) table)
      (fun memory found ↦ confined_of_abreast
        (tableStep_abreast (Host.memory_lasting memory).noting.seen module _ table found)
        fun _ _ ↦ Sources.Blames.raises)
      (fun _ _ _ _ ↦ room_tableStep) (scanner.registry.get? (libraryOf module), #[]) middle
    refine ⟨r, scanner', hrounds, ?_⟩
    rw [decodeTable, Action.run_bind, Action.run_get]
    dsimp only
    rw [Action.run_bind_ok hword]
    refine (hrun _).trans ?_
    cases r <;> rfl
  modules start := by
    obtain ⟨r, scanner', hrounds, hrun⟩ := exists_rounds Prod.fst
      (fun memory found ↦ confined_of_abreast
        (scanStep_abreast (Host.memory_lasting memory).noting.seen found) fun _ _ ↦ Sources.Blames.raises)
      (fun _ _ _ _ ↦ room_scanStep) (start, #[]) scanner
    refine ⟨r, scanner', hrounds, (hrun _).trans ?_⟩
    cases r <;> rfl

end Scanner

end Resident

end Hunks
