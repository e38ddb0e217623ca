import Mathlib
import Hunks.Proofs.Load.Growth

namespace Hunks

open Hunks.Action (run Runs)

/-- The results of loads of programs and units, one after the other, into a program that was empty at
first. No report of any of them says that an operation of the host failed. -/
inductive Session : List LoadResult → Host → Prop
  | start : Session [] (.ofProgram .empty)
  | load {ρ : Type} {results : List LoadResult} {host : Host} {loader : Loader ρ} {data : Bytes}
      {registry : Option Registry} {lookups : ρ} {result : LoadResult} {loading : Loading ρ} :
      Session results host →
      Runs Unfailing (Loading.load loader data) ⟨host, registry, lookups⟩ result loading →
      result.kind = .program ∨ result.kind = .unit → Session (results ++ [result]) loading.host

namespace Session

variable {results : List LoadResult} {host : Host}

/-- What all loads of a session keep: later loads append to the regions of slots, so these have to
consist of whole slots. -/
structure Settled (results : List LoadResult) (host : Host) : Prop where
  reliable : host.Reliable
  sound : host.program.memory.Sound
  longs : host.program.memory.Longs
  slots : host.HasSlots results

theorem settled_start : Settled [] (.ofProgram .empty) where
  reliable := Host.reliable_ofProgram _
  sound := Memory.sound_nil
  longs := by simp [Memory.Longs, Host.ofProgram, Program.empty]
  slots := Host.hasSlots_nil _

theorem Settled.load {ρ : Type} {loader : Loader ρ} {data : Bytes} {registry : Option Registry}
    {lookups : ρ} {result : LoadResult} {loading : Loading ρ} (h : Settled results host)
    (hr : Runs Unfailing (Loading.load loader data) ⟨host, registry, lookups⟩ result loading)
    (hk : result.kind = .program ∨ result.kind = .unit) :
    Settled (results ++ [result]) loading.host := by
  obtain ⟨file, hread, hr⟩ := Loading.load_eq_loadFile hr hk
  obtain ⟨image, _, _, _, _, _, _, _, hstages⟩ := Loading.loadFile_stages hr
  obtain ⟨hunks, hi⟩ := Image.exists_isRead hread hstages.built
  have hgrown : Loading.Grown host loading.host result :=
    hstages.grown hi h.reliable h.sound h.longs
  exact ⟨hgrown.kept.reliable, hgrown.kept.sound, hgrown.longs,
    h.slots.append (h.slots.mono h.sound hgrown.kept) hgrown.slots hgrown.clear⟩

theorem settled (h : Session results host) : Settled results host := by
  induction h with
  | start => exact settled_start
  | load _ hr hk ih => exact ih.load hr hk

/-- All slots that the loads of a session have minted so far have addresses of their own, at which
their names are still found, the slots of absolute values still hold these, and those for names
without a definition lie in memory. -/
theorem slots_kept (h : Session results host) :
    ((results.flatMap LoadResult.slots).map Prod.fst).Nodup ∧
      (∀ result ∈ results, ∀ address slot, (address, slot) ∈ result.slots →
        ∃ name, slot.name = some name ∧
          run (Host.lookupGlobal name) host = (.ok (some address), host)) ∧
      (∀ result ∈ results, ∀ address slot, (address, slot) ∈ result.defSlots →
        ∃ value n, slot.value = some value ∧
          run (Host.readNumber .readInt 4 address) host = (.ok n, host) ∧ (n : Int) = value % 2 ^ 32) ∧
      ∀ result ∈ results, ∀ address slot, (address, slot) ∈ result.refSlots →
        ∃ region ∈ host.program.memory, region.start ≤ address ∧ address + 4 ≤ region.stop := by
  obtain ⟨hrel, hsound, -, hslots⟩ := h.settled
  refine ⟨hslots.nodup, fun result hr address slot hm ↦ ?_, fun result hr address slot hm ↦ ?_,
    fun result hr address slot hm ↦ ?_⟩
  · obtain ⟨name, hname⟩ := Option.isSome_iff_exists.mp (LoadResult.isSome_name hm)
    refine ⟨name, hname, ?_⟩
    rw [Host.run_lookupGlobal hrel, hslots.labels result hr address slot hm name hname]
  · obtain ⟨value, hvalue, hholds⟩ := hslots.values result hr address slot hm
    have hread := hholds.read hsound (by simp [Bytes.long, Bytes.ofInt, Bytes.ofNat])
    rw [Bytes.long, Bytes.length_ofInt] at hread
    refine ⟨value, _, hvalue, Host.run_readNumber hrel .readInt hread, ?_⟩
    exact Bytes.toNat_ofInt 4 value
  · exact hslots.covers result hr address slot (List.mem_append_right _ hm)

/-- A unit that defines an absolute value and refers to a name that nobody defines. -/
def sample (defined value referred : Nat) : Bytes :=
  ([0x3e7, 0, 0x3e9, 2, 0x4e714e75, 0, 0x3ef, 0x02000001, defined, value, 0x81000001, referred, 1, 4,
    0, 0x3f2].flatMap (Bytes.ofNat 4)).toArray

def sampleLoader (base : Int) : Loader Unit where
  types := []
  base
  resolver := none

def firstLoad : Outcome (Loading Unit) LoadError LoadResult :=
  Loading.load (sampleLoader 0x21f000) (sample 0x6c696d00 7 0x65787400)
    ⟨.ofProgram .empty, none, ()⟩

/-- The second load appends its slots to the regions that the first one created. -/
def secondLoad : Outcome (Loading Unit) LoadError LoadResult :=
  Loading.load (sampleLoader 0x300000) (sample 0x68690000 9 0x6e657700) ⟨firstLoad.state.host, none, ()⟩

theorem slots_kept_sample : ∃ first second host, Session [first, second] host ∧
    first.defSlots = [(0x22f000, ⟨some "lim", some 7⟩)] ∧
    second.slots = [(0x22f004, ⟨some "hi", some 9⟩), (0x21f00c, ⟨some "new", none⟩)] ∧
    run (Host.lookupGlobal "lim") host = (.ok (some 0x22f000), host) ∧
    run (Host.readNumber .readInt 4 0x22f000) host = (.ok 7, host) ∧
    ∃ region ∈ host.program.memory, region.start ≤ 0x21f00c ∧ 0x21f00c + 4 ≤ region.stop := by
  have hfirst : firstLoad.result.map (fun result ↦ (result.kind, result.defSlots)) =
      .ok (.unit, [(0x22f000, ⟨some "lim", some 7⟩)]) ∧
      ∀ report ∈ firstLoad.log.toList, report.level ≠ .warning := by decide +kernel
  have hsecond : secondLoad.result.map (fun result ↦ (result.kind, result.defSlots, result.refSlots)) =
      .ok (.unit, [(0x22f004, ⟨some "hi", some 9⟩)], [(0x21f00c, ⟨some "new", none⟩)]) ∧
      ∀ report ∈ secondLoad.log.toList, report.level ≠ .warning := by decide +kernel
  obtain ⟨hfirst, hlog⟩ := hfirst
  obtain ⟨hsecond, hlog'⟩ := hsecond
  rcases hr : firstLoad.result with _ | first
  · rw [hr] at hfirst
    cases hfirst
  rcases hr' : secondLoad.result with _ | second
  · rw [hr'] at hsecond
    cases hsecond
  rw [hr] at hfirst
  rw [hr'] at hsecond
  simp only [Except.map, Except.ok.injEq, Prod.mk.injEq] at hfirst hsecond
  obtain ⟨hkind, hdefs⟩ := hfirst
  obtain ⟨hkind', hdefs', hrefs'⟩ := hsecond
  have hsession : Session [first, second] secondLoad.state.host :=
    (start.load ⟨Action.result_eq hr, fun report hm ↦ .of_level (hlog report hm)⟩ (Or.inr hkind)).load
      ⟨Action.result_eq hr', fun report hm ↦ .of_level (hlog' report hm)⟩ (Or.inr hkind')
  obtain ⟨-, hlabels, hvalues, hcovers⟩ := slots_kept hsession
  obtain ⟨name, hname, hlookup⟩ := hlabels first (by simp) 0x22f000 ⟨some "lim", some 7⟩
    (by simp [LoadResult.slots, hdefs])
  obtain ⟨value, n, hvalue, hread, hn⟩ := hvalues first (by simp) 0x22f000 ⟨some "lim", some 7⟩
    (by simp [hdefs])
  cases hname
  cases hvalue
  obtain rfl : n = 7 := by
    norm_num at hn
    exact_mod_cast hn
  refine ⟨first, second, _, hsession, hdefs, ?_, hlookup, hread, ?_⟩
  · rw [LoadResult.slots, hdefs', hrefs']
    rfl
  · exact hcovers second (by simp) 0x21f00c ⟨some "new", none⟩ (by simp [hrefs'])

end Session

end Hunks
