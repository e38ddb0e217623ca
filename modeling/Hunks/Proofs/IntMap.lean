import Mathlib
import Hunks.IntMap

namespace Hunks.IntMap

variable {α : Type} {map : IntMap α} {key other : Int} {value value' : α} {writes more : List (Int × α)}

/-- Writes all values, one after the other. -/
def puts (writes : List (Int × α)) (map : IntMap α) : IntMap α :=
  writes.foldl (fun map (key, value) ↦ map.put key value) map

/-- The value that is written to a number last. -/
def last? (key : Int) : List (Int × α) → Option α
  | [] => none
  | (other, value) :: writes => (last? key writes).or (if other = key then some value else none)

theorem last?_append (key : Int) (writes more : List (Int × α)) :
    last? key (writes ++ more) = (last? key more).or (last? key writes) := by
  induction writes with
  | nil => simp [last?]
  | cons write writes ih => simp [last?, ih, Option.or_assoc]

theorem mem_of_last? (h : last? key writes = some value) : (key, value) ∈ writes := by
  induction writes with
  | nil => cases h
  | cons write writes ih =>
    obtain ⟨other, first⟩ := write
    rw [last?, Option.or_eq_some_iff] at h
    rcases h with h | ⟨-, h⟩
    · exact List.mem_cons_of_mem _ (ih h)
    · split at h <;> rename_i hkey
      · cases h
        rw [hkey]
        exact List.mem_cons_self
      · cases h

theorem isSome_last?_iff : (last? key writes).isSome ↔ key ∈ writes.map Prod.fst := by
  induction writes with
  | nil => simp [last?]
  | cons write writes ih =>
    obtain ⟨other, first⟩ := write
    rw [last?, Option.isSome_or, Bool.or_eq_true, ih, List.map_cons, List.mem_cons, or_comm,
      @eq_comm _ key other]
    split <;> rename_i hkey <;> simp [hkey]

/-- Of writes to different numbers each is the last one to its number. -/
theorem last?_of_nodup (hnodup : (writes.map Prod.fst).Nodup) (hm : (key, value) ∈ writes) :
    last? key writes = some value := by
  induction writes with
  | nil => cases hm
  | cons write writes ih =>
    obtain ⟨hfirst, hrest⟩ := List.nodup_cons.mp hnodup
    rcases List.mem_cons.mp hm with rfl | hm
    · have hlater : last? key writes = none := by
        rwa [← Option.not_isSome_iff_eq_none, isSome_last?_iff]
      rw [last?, hlater, Option.none_or, if_pos rfl]
    · rw [last?, ih hrest hm, Option.some_or]

/-- Two groups of writes to different numbers may each be left out, if more was written last. -/
theorem last?_of_groups {first first' second second' : List (Int × α)}
    (hfirst : first' = [] ∨ first' = first) (hsecond : second' = [] ∨ second' = second)
    (hapart : ∀ write ∈ first, ∀ other ∈ second, write.1 ≠ other.1)
    (h : last? key (first' ++ second' ++ more) = some value) :
    last? key (first ++ second ++ more) = some value := by
  rw [last?_append, Option.or_eq_some_iff] at h ⊢
  refine h.imp_right fun ⟨hmore, h⟩ ↦ ⟨hmore, ?_⟩
  rw [last?_append, Option.or_eq_some_iff] at h ⊢
  have hleft : last? key first' = some value → last? key first = some value := by
    rcases hfirst with rfl | rfl
    · exact nofun
    · exact fun h ↦ h
  rcases hsecond with rfl | rfl
  · have hkey := hleft (h.resolve_left nofun).2
    refine Or.inr ⟨Option.eq_none_iff_forall_ne_some.mpr fun other hother ↦ ?_, hkey⟩
    exact hapart _ (mem_of_last? hkey) _ (mem_of_last? hother) rfl
  · exact h.imp_right fun h ↦ ⟨h.1, hleft h.2⟩

theorem get?_cons (key other : Int) (value : α) (map : IntMap α) :
    get? ((other, value) :: map) key = if other = key then some value else get? map key := by
  rw [get?, List.find?_cons]
  by_cases h : other = key
  · simp [h]
  · simp [h, get?]

theorem get?_put (key other : Int) (value : α) (map : IntMap α) :
    (map.put key value).get? other = if key = other then some value else map.get? other := by
  induction map with
  | nil => rw [put, get?_cons]
  | cons entry map ih =>
    obtain ⟨first, old⟩ := entry
    rw [put]
    split <;> rename_i hfirst
    · subst hfirst
      rw [get?_cons, get?_cons]
      split <;> rfl
    · rw [get?_cons, get?_cons, ih]
      by_cases h : first = other
      · rw [if_pos h, if_pos h, if_neg (by omega)]
      · rw [if_neg h, if_neg h]

theorem get?_puts (key : Int) (writes : List (Int × α)) (map : IntMap α) :
    (map.puts writes).get? key = (last? key writes).or (map.get? key) := by
  induction writes generalizing map with
  | nil => rfl
  | cons write writes ih =>
    rw [puts, List.foldl_cons]
    exact (ih _).trans (by rw [get?_put, last?]; split <;> simp)

theorem puts_append (writes more : List (Int × α)) (map : IntMap α) :
    map.puts (writes ++ more) = (map.puts writes).puts more :=
  List.foldl_append

/-- Writing what is there already changes nothing. -/
theorem put_self (h : map.get? key = some value) : map.put key value = map := by
  induction map with
  | nil => cases h
  | cons entry map ih =>
    obtain ⟨first, old⟩ := entry
    rw [get?_cons] at h
    rw [put]
    split at h <;> rename_i hfirst
    · cases h
      rw [if_pos hfirst, hfirst]
    · rw [if_neg hfirst, ih h]

theorem put_put (key : Int) (value value' : α) (map : IntMap α) :
    (map.put key value).put key value' = map.put key value' := by
  induction map with
  | nil => simp [put]
  | cons entry map ih =>
    obtain ⟨first, old⟩ := entry
    rw [put, put]
    split <;> rename_i hfirst
    · rw [put, if_pos rfl]
    · rw [put, if_neg hfirst, ih]

/-- Writes to two numbers commute if they do not both add an entry. -/
theorem put_comm (hne : key ≠ other) (h : (map.get? key).isSome) (value value' : α) :
    (map.put key value).put other value' = (map.put other value').put key value := by
  induction map with
  | nil => cases h
  | cons entry map ih =>
    obtain ⟨first, old⟩ := entry
    rw [get?_cons] at h
    by_cases hkey : first = key
    · subst hkey
      simp [put, hne]
    · rw [if_neg hkey] at h
      by_cases hother : first = other
      · subst hother
        simp [put, hkey]
      · simp [put, hkey, hother, ih h]

/-- What is written over later does not count. -/
theorem puts_put (h : (map.get? key).isSome) (hlast : (last? key writes).isSome) (value : α) :
    (map.put key value).puts writes = map.puts writes := by
  induction writes generalizing map with
  | nil => cases hlast
  | cons write writes ih =>
    obtain ⟨first, new⟩ := write
    show ((map.put key value).put first new).puts writes = (map.put first new).puts writes
    by_cases hfirst : first = key
    · rw [hfirst, put_put]
    · rw [last?, if_neg hfirst, Option.or_none] at hlast
      rw [put_comm (Ne.symm hfirst) h]
      refine ih ?_ hlast
      rw [get?_put]
      split
      · rfl
      · exact h

/-- Writes leave a map alone if the last ones to each number find their values there. -/
theorem puts_self (h : ∀ key value, last? key writes = some value → map.get? key = some value) :
    map.puts writes = map := by
  induction writes with
  | nil => rfl
  | cons write writes ih =>
    obtain ⟨key, value⟩ := write
    have hrest : map.puts writes = map := by
      refine ih fun other new hnew ↦ h other new ?_
      rw [last?, hnew, Option.some_or]
    show (map.put key value).puts writes = map
    cases hlast : last? key writes with
    | some new =>
      have hthere := h key new (by rw [last?, hlast, Option.some_or])
      rw [puts_put (by rw [hthere]; rfl) (by rw [hlast]; rfl), hrest]
    | none =>
      have hthere := h key value (by rw [last?, hlast, if_pos rfl, Option.none_or])
      rw [put_self hthere, hrest]

/-- Writes that are repeated at most in part, each number with its last value, change nothing. -/
theorem puts_puts (h : ∀ key value, last? key more = some value → last? key writes = some value) :
    (map.puts writes).puts more = map.puts writes := by
  refine puts_self fun key value hlast ↦ ?_
  rw [get?_puts, h key value hlast, Option.some_or]

end Hunks.IntMap
