import Mathlib
import Hunks.Proofs.Descriptor.Lines
import Hunks.Proofs.Load.Failures
import Hunks.Proofs.Resident.Announced

namespace Hunks

open Hunks.Action (run)
open Hunks.Loading (load)
open Hunks.Resident (Scanner ScanError Sources)

namespace Descriptor

/-- A text whose reserve directives, as far as they count, have a number or nothing behind them. -/
def Countable (text : String) : Prop :=
  ∀ entry ∈ body text, ∀ value, entry.1 = .directive "reserve" value →
    value = "" ∨ (Text.decimal? value).isSome

theorem mild_of_parse {text source : String} {library : Option String} {e : DescriptorError}
    (hc : Countable text) (h : (parse text source library ()).result = .error e) :
    (ResolveError.descriptor e).isMild := by
  obtain ⟨⟨line, number⟩, hm, hfault⟩ := fault_of_parse h
  cases hfault with
  | bias hvalue => rfl
  | @reserve value hempty hvalue =>
    obtain hv | hv := hc _ hm value rfl
    · exact absurd hv hempty
    · rw [hvalue] at hv
      cases hv
  | function hshort hlong => rfl

end Descriptor

namespace FileTree

variable {files : FileTree} {content : Bytes}

/-- A tree whose files are descriptors with countable reserve directives, or anything without one. -/
def Countable (files : FileTree) : Prop :=
  ∀ entry ∈ files, ∀ content ∈ entry.2, Descriptor.Countable (Text.ofLatin1 content.toList)

theorem exists_of_follow {upward path : List String} (h : follow files upward path = .file content) :
    ∃ path, files.at? path = .file content := by
  induction path generalizing upward with
  | nil => exact ⟨_, h⟩
  | cons part rest ih =>
    rw [follow] at h
    split at h
    · exact ih h
    · cases h
    · exact ⟨_, h⟩

theorem Countable.of_read (hc : files.Countable) {path : String} (h : files.read path = .ok content) :
    Descriptor.Countable (Text.ofLatin1 content.toList) := by
  obtain ⟨place, hat⟩ : ∃ place, files.at? place = .file content := by
    rw [read, entry] at h
    split at h <;> rename_i hentry
    · split at hentry
      · cases hentry
      · split at hentry <;> rename_i hfollow
        · split at hentry
          · cases hentry
          · cases hentry
            cases h
            exact exists_of_follow hfollow
        · cases h
          exact exists_of_follow hentry
    · cases h
    · cases h
    · cases h
  rw [at?] at hat
  split at hat <;> rename_i hlookup
  · cases hat
    obtain ⟨before, after, rfl, -⟩ := List.lookup_eq_some_iff.mp hlookup
    exact hc (place, some content) (by simp) content rfl
  · cases hat
  · split at hat
    · cases hat
    · cases hat

end FileTree

namespace Resolver

variable {ρ : Type} {resolver : Resolver ρ} {files : FileTree} {lookups : ρ} {e : ResolveError}

/-- A resolver that finds nothing or reads a file. -/
def ReadsFrom (resolver : Resolver ρ) (files : FileTree) : Prop :=
  ∀ library lookups, (run (resolver library) lookups).1 = .ok none ∨
    ∃ path, (run (resolver library) lookups).1 = (run (readFile files path library) lookups).1.map some

theorem ofDirectory_readsFrom (files : FileTree) (directory : String) :
    (ofDirectory files directory : Resolver ρ).ReadsFrom files := by
  intro library lookups
  rw [ofDirectory]
  split
  · rename_i path _
    refine Or.inr ⟨path, ?_⟩
    rw [Action.run_map]
  · exact Or.inl rfl

/-- A file cannot be read, or is wrong, or holds a descriptor. -/
theorem mild_of_readFile {path library : String}
    (hc : files.Countable)
    (h : (run (readFile files path library) lookups).1 = .error e) : e.isMild := by
  rw [readFile] at h
  split at h
  · rename_i content hcontent
    rw [parse, Action.run_bind, Action.run_within, Action.run_mapError] at h
    cases hparse : (run (Descriptor.parse (Text.ofLatin1 content.toList) path (some library)) ()).1 with
    | ok descriptor =>
      simp [hparse, Except.map, Except.mapError] at h
    | error e' =>
      simp only [hparse, Except.map, Except.mapError, Except.error.injEq] at h
      subst h
      exact Descriptor.mild_of_parse (hc.of_read hcontent) hparse
  · cases h
    rfl

theorem ReadsFrom.mild (hr : resolver.ReadsFrom files)
    (hc : files.Countable) (types : Option Catalog) :
    Sources.Mild ⟨types, some resolver⟩ := by
  intro resolver' hresolver library lookups e h
  obtain rfl := Option.some.inj hresolver
  obtain hnone | ⟨path, hread⟩ := hr library lookups
  · rw [hnone] at h
    cases h
  · rw [hread] at h
    cases hfile : (run (readFile files path library) lookups).1 with
    | ok descriptor =>
      rw [hfile] at h
      cases h
    | error e' =>
      rw [hfile] at h
      cases h
      exact mild_of_readFile hc hfile

/-- What is wrong with a descriptor file, other than the count of a reserve directive, is only mentioned:
whatever the files hold, a scan on any host fails because of the host alone, and a load because of its
input or a lookup of a name. -/
theorem ReadsFrom.reported (hr : resolver.ReadsFrom files)
    (hc : files.Countable) :
    (∀ text source library e, Descriptor.Countable text →
      (Descriptor.parse text source library ()).result = .error e →
        (ResolveError.descriptor e).isMild) ∧
      (∀ types start (scanner : Scanner ρ) e,
        (Scanner.scan ⟨types, some resolver⟩ start scanner).result = .error e → e.OfHost) ∧
      ∀ types base program limits registry lookups data e,
        limits.lookup Operation.getBlock = none →
        (load ⟨types, base, some resolver⟩ data ⟨⟨program, limits⟩, registry, lookups⟩).result =
          .error e → e.OfNames := by
  have hcalm : ∀ types e, ¬ Sources.Escapes (ρ := ρ) ⟨types, some resolver⟩ e := by
    rintro types e ⟨resolver', hresolver, library, lookups, herror, hmild⟩
    exact hmild (hr.mild hc types resolver' hresolver library lookups e herror)
  refine ⟨fun text source library e htext h ↦ Descriptor.mild_of_parse htext h,
    fun types start scanner e h ↦ ?_, fun types base program limits registry lookups data e hn h ↦ ?_⟩
  · have hscan : (Scanner.scan ⟨types, some resolver⟩ start).Confined
        (Scanner.Has (·.program.memory = scanner.host.program.memory)) _ :=
      Scanner.scan_confined (Host.memory_lasting _) start
    cases e with
    | host e => trivial
    | resolve e => exact hcalm types e (hscan.raises scanner rfl _ h)
  · have hlooks : Host.Looks (limits.lookup .lookupGlobal) ⟨program, limits⟩ :=
      ⟨rfl, by rintro _ rfl; exact hn⟩
    have hloader : ∀ e, ¬ (⟨types, base, some resolver⟩ : Loader ρ).Escapes e := hcalm (some types)
    have hload := Loading.load_looks_of_calm hloader data ⟨⟨program, limits⟩, registry, lookups⟩
      ⟨⟨program, limits⟩, registry, lookups⟩ ⟨_, hlooks, hlooks⟩
    exact hload.raises h

/-- A descriptor file with counts in both forms and a bias that is no number. -/
def sampleText : String := "##reserve\n##reserve 2\n##bias x\n"

def sampleFiles : FileTree := [(["x_lib.fd"], some sampleText.toUTF8.data)]

theorem ReadsFrom.reported_sample :
    (ofDirectory sampleFiles "" : Resolver Unit).ReadsFrom sampleFiles ∧ sampleFiles.Countable ∧
      (Descriptor.parse sampleText "x_lib.fd" none ()).result = .error (.bias "x_lib.fd" 3 "x") ∧
      (ResolveError.descriptor (.bias "x_lib.fd" 3 "x")).isMild ∧
      ∀ start (scanner : Scanner Unit) e,
        (Scanner.scan ⟨none, some (ofDirectory sampleFiles "")⟩ start scanner).result = .error e →
          e.OfHost := by
  have hr : (ofDirectory sampleFiles "" : Resolver Unit).ReadsFrom sampleFiles := ofDirectory_readsFrom _ _
  have hbody : Descriptor.body sampleText = [(.directive "reserve" "", 1), (.directive "reserve" "2", 2),
      (.directive "bias" "x", 3)] := by decide +kernel
  have htext : Descriptor.Countable sampleText := by
    have htwo : (Text.decimal? "2").isSome := by decide +kernel
    simp [Descriptor.Countable, hbody, htwo]
  have hlatin : Text.ofLatin1 sampleText.toUTF8.data.toList = sampleText := by decide +kernel
  have hc : sampleFiles.Countable := by
    simp only [FileTree.Countable, sampleFiles, List.mem_singleton, forall_eq, Option.mem_def,
      Option.some.injEq, forall_eq', hlatin]
    exact htext
  obtain ⟨hparse, hscan, -⟩ := hr.reported hc
  have herror : (Descriptor.parse sampleText "x_lib.fd" none ()).result =
      .error (.bias "x_lib.fd" 3 "x") := by decide +kernel
  exact ⟨hr, hc, herror, hparse _ _ _ _ htext herror, hscan none⟩

/-- A reserve directive with a word in place of its count ends the scan that asks for the file. -/
theorem reserve_escapes :
    (Descriptor.parse "==reserve x\n" "<fd>" none ()).result = .error (.reserve "<fd>" 1 "x") ∧
      (ResolveError.descriptor (.reserve "<fd>" 1 "x")).isMild = false := by
  decide +kernel

end Resolver

end Hunks
