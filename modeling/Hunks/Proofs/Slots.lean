import Mathlib
import Hunks.Proofs.Bytes.Shows
import Hunks.Proofs.Bytes.Span
import Hunks.Proofs.Names

namespace Hunks

namespace SlotStore

variable {store : SlotStore} {name name' : String} {address : Int} {slot : Slot} {i : Nat}

/-- The names that have a slot, in the order of their slots. -/
def names (store : SlotStore) : List String :=
  store.slots.toList.filterMap Slot.name

theorem mem_names : name ∈ store.names ↔ ∃ slot ∈ store.slots, slot.name = some name := by
  simp [names]

theorem names_eq_nil (h : ∀ slot ∈ store.slots, slot.name = none) : store.names = [] := by
  refine List.eq_nil_iff_forall_not_mem.mpr fun name hm ↦ ?_
  obtain ⟨slot, hs, hn⟩ := mem_names.mp hm
  rw [h slot hs] at hn
  cases hn

theorem names_extend (store : SlotStore) (slots : List Slot) :
    (store.extend slots).names = store.names ++ slots.filterMap Slot.name := by
  simp [names, extend]

theorem lookup?_eq (store : SlotStore) (name : String) : store.lookup? name =
    (store.slots.findIdx? fun slot ↦ slot.name = some name).map fun i : Nat ↦ store.addressOf i := by
  rw [lookup?]
  cases store.slots.findIdx? fun slot ↦ slot.name = some name <;> rfl

theorem lookup?_none_iff : store.lookup? name = none ↔ name ∉ store.names := by
  rw [lookup?_eq, Option.map_eq_none_iff, Array.findIdx?_eq_none_iff, mem_names]
  simp

theorem mem_of_lookup? (h : store.lookup? name = some address) : name ∈ store.names := by
  by_contra hm
  rw [lookup?_none_iff.mpr hm] at h
  cases h

/-- A slot never moves. -/
theorem lookup?_extend (slots : List Slot) (h : store.lookup? name = some address) :
    (store.extend slots).lookup? name = some address := by
  rw [lookup?_eq] at h ⊢
  obtain ⟨i, hi, rfl⟩ := Option.map_eq_some_iff.mp h
  rw [extend, Array.findIdx?_append, hi, Option.some_or, Option.map_some]
  rfl

theorem lookup?_extend_new (value : Option Int) (h : name ∉ store.names) :
    (store.extend [⟨some name, value⟩]).lookup? name = some store.stop := by
  rw [← lookup?_none_iff, lookup?_eq, Option.map_eq_none_iff] at h
  rw [← addressOf_length, lookup?_eq, extend, Array.findIdx?_append, h, Option.none_or]
  simp [addressOf, length]

theorem lookup?_isSome : (store.lookup? name).isSome ↔ name ∈ store.names := by
  rw [Option.isSome_iff_ne_none, Ne, lookup?_none_iff, not_not]

theorem lookup?_eq_some (h : store.lookup? name = some address) :
    ∃ (i : Nat) (slot : Slot), store.slots[i]? = some slot ∧ slot.name = some name ∧
      address = store.addressOf i := by
  rw [lookup?] at h
  cases hi : store.slots.findIdx? fun slot ↦ slot.name = some name with
  | none => simp [hi] at h
  | some i =>
    obtain ⟨hlt, hname, -⟩ := Array.findIdx?_eq_some_iff_getElem.mp hi
    refine ⟨i, store.slots[i], Array.getElem?_eq_getElem hlt, by simpa using hname, ?_⟩
    simpa [hi, eq_comm] using h

/-- In one store different names have different addresses. -/
theorem lookup?_inj (h : store.lookup? name = some address) (h' : store.lookup? name' = some address) :
    name = name' := by
  obtain ⟨i, slot, hs, hn, rfl⟩ := lookup?_eq_some h
  obtain ⟨j, slot', hs', hn', ha⟩ := lookup?_eq_some h'
  obtain rfl := addressOf_inj.mp ha
  rw [hs] at hs'
  cases hs'
  exact Option.some.inj (hn.symm.trans hn')

theorem add_eq_of_lookup? (value : Option Int) (h : store.lookup? name = some address) :
    store.add name value = (address, store) := by
  rw [add, h]

theorem lookup?_add (store : SlotStore) (name : String) (value : Option Int) :
    (store.add name value).2.lookup? name = some (store.add name value).1 := by
  cases h : store.lookup? name with
  | some address =>
    rw [add_eq_of_lookup? value h]
    exact h
  | none =>
    rw [add_eq h]
    exact lookup?_extend_new value (lookup?_none_iff.mp h)

theorem stop_eq (store : SlotStore) : store.stop = store.base + 4 * store.length := by
  rw [stop, size, Int.natCast_mul, mul_comm]
  rfl

theorem reserve_eq (store : SlotStore) (n : Nat) :
    store.reserve n = store.extend (List.replicate n ⟨none, none⟩) := by
  simp [reserve, extend]

theorem slots_add (value : Option Int) (h : name ∉ store.names) :
    (store.add name value).2.slots[store.length]? = some ⟨some name, value⟩ := by
  rw [add_eq (lookup?_none_iff.mpr h)]
  simp [extend, length]

theorem length_word (slot : Slot) : (Bytes.long (slot.value.getD 0)).length = slotSize :=
  Bytes.length_ofInt ..

theorem size_content (store : SlotStore) : store.content.size = store.size := by
  rw [content, List.size_toArray, Bytes.length_flatMap_parts length_word, size, length, Array.length_toList,
    Nat.mul_comm]

/-- The values of the slots follow one another in the content. -/
theorem field_content (h : store.slots[i]? = some slot) :
    (store.content.field ⟨slotSize * i, slotSize⟩ : Int) = slot.value.getD 0 % 2 ^ (8 * slotSize) := by
  have hwords := Bytes.shows_toArray (store.slots.toList.flatMap fun slot ↦ Bytes.long (slot.value.getD 0))
  have hword := (hwords.part length_word (by rwa [Array.getElem?_toList])).extract_eq
  rw [Nat.zero_add, length_word] at hword
  rw [Bytes.field, Bytes.sub, content, hword]
  exact Bytes.toNat_ofInt slotSize (slot.value.getD 0)

/-- An operation of a store with its arguments. -/
inductive Call where
  | add (name : String) (value : Option Int)
  | reserve (n : Nat)
  | lookup (name : String)
  | content

namespace Call

def next : Call → SlotStore → SlotStore
  | add name value, store => (store.add name value).2
  | reserve n, store => store.reserve n
  | lookup _, store => store
  | content, store => store

/-- The address that a call is answered with, behind the name that it is for. -/
def answer? : Call → SlotStore → Option (String × Int)
  | add name value, store => some (name, (store.add name value).1)
  | lookup name, store => (store.lookup? name).map (name, ·)
  | reserve _, _ => none
  | content, _ => none

def added? : Call → Option String
  | add name _ => some name
  | _ => none

/-- A call takes more slots, if anything, and only those with a name have a value. -/
theorem next_eq (call : Call) (store : SlotStore) : ∃ slots, call.next store = store.extend slots ∧
    (∀ slot ∈ slots, slot.name = none → slot.value = none) ∧
    ∀ name, name ∈ slots.filterMap Slot.name → call.added? = some name := by
  have hidle : ∃ slots, store = store.extend slots ∧ (∀ slot ∈ slots, slot.name = none → slot.value = none) ∧
      ∀ name, name ∈ slots.filterMap Slot.name → call.added? = some name :=
    ⟨[], (extend_nil store).symm, nofun, nofun⟩
  cases call with
  | add name value =>
    cases h : store.lookup? name with
    | some address =>
      rw [next, add_eq_of_lookup? value h]
      exact hidle
    | none => exact ⟨[⟨some name, value⟩], by rw [next, add_eq h], by simp, by simp [added?]⟩
  | reserve n => exact ⟨List.replicate n ⟨none, none⟩, reserve_eq store n, by simp, by simp⟩
  | lookup name => exact hidle
  | content => exact hidle

theorem mem_names_next (call : Call) (store : SlotStore) (name : String) :
    name ∈ (call.next store).names ↔ name ∈ store.names ∨ call.added? = some name := by
  obtain ⟨slots, hnext, -, hnames⟩ := call.next_eq store
  refine ⟨fun hm ↦ ?_, ?_⟩
  · rw [hnext, names_extend, List.mem_append] at hm
    exact hm.imp_right (hnames name)
  · rintro (hm | hadded)
    · rw [hnext, names_extend]
      exact List.mem_append_left _ hm
    · cases call with
      | add other value =>
        obtain rfl := Option.some.inj hadded
        exact mem_of_lookup? (lookup?_add store other value)
      | _ => cases hadded

theorem lookup?_next_of_answer (call : Call) (h : call.answer? store = some (name, address)) :
    (call.next store).lookup? name = some address := by
  cases call with
  | add other value =>
    obtain ⟨rfl, rfl⟩ := Prod.mk.inj (Option.some.inj h)
    exact lookup?_add store other value
  | lookup other =>
    obtain ⟨address', ha, he⟩ := Option.map_eq_some_iff.mp h
    obtain ⟨rfl, rfl⟩ := Prod.mk.inj he
    exact ha
  | reserve n => cases h
  | content => cases h

end Call

section Calls

variable {calls : List Call}

/-- A store on which calls have been made one after the other. -/
def after (store : SlotStore) (calls : List Call) : SlotStore :=
  calls.foldl (fun store call ↦ call.next store) store

/-- The addresses that calls are answered with when they are made one after the other. -/
def answers (store : SlotStore) : List Call → List (String × Int)
  | [] => []
  | call :: calls => (call.answer? store).toList ++ answers (call.next store) calls

theorem after_append (store : SlotStore) (calls more : List Call) :
    store.after (calls ++ more) = (store.after calls).after more :=
  List.foldl_append

theorem after_eq (store : SlotStore) (calls : List Call) : ∃ slots, store.after calls = store.extend slots ∧
    ∀ slot ∈ slots, slot.name = none → slot.value = none := by
  induction calls generalizing store with
  | nil => exact ⟨[], (extend_nil store).symm, nofun⟩
  | cons call calls ih =>
    obtain ⟨slots, hnext, hplain, -⟩ := call.next_eq store
    obtain ⟨more, hafter, hmore⟩ := ih (call.next store)
    refine ⟨slots ++ more, ?_, fun slot hm ↦ (List.mem_append.mp hm).elim (hplain slot) (hmore slot)⟩
    rw [← extend_append, ← hnext, ← hafter]
    rfl

theorem mem_names_after (store : SlotStore) (calls : List Call) (name : String) :
    name ∈ (store.after calls).names ↔ name ∈ store.names ∨ name ∈ calls.filterMap Call.added? := by
  induction calls generalizing store with
  | nil => simp [after]
  | cons call calls ih =>
    show name ∈ ((call.next store).after calls).names ↔ _
    rw [ih, Call.mem_names_next, or_assoc]
    cases h : call.added? <;> simp [h, eq_comm]

theorem base_after (store : SlotStore) (calls : List Call) : (store.after calls).base = store.base := by
  obtain ⟨slots, hafter, -⟩ := store.after_eq calls
  rw [hafter]
  rfl

theorem slots_after (calls : List Call) (h : store.slots[i]? = some slot) :
    (store.after calls).slots[i]? = some slot := by
  obtain ⟨slots, hafter, -⟩ := store.after_eq calls
  obtain ⟨hi, -⟩ := Array.getElem?_eq_some_iff.mp h
  rw [hafter, extend, Array.getElem?_append_left hi, h]

/-- Once a name has an address, it keeps it. -/
theorem lookup?_after (calls : List Call) (h : store.lookup? name = some address) :
    (store.after calls).lookup? name = some address := by
  obtain ⟨slots, hafter, -⟩ := store.after_eq calls
  rw [hafter]
  exact lookup?_extend slots h

theorem lookup?_of_mem_answers (h : (name, address) ∈ store.answers calls) :
    (store.after calls).lookup? name = some address := by
  induction calls generalizing store with
  | nil => cases h
  | cons call calls ih =>
    rw [answers, List.mem_append, Option.mem_toList] at h
    rcases h with h | h
    · exact lookup?_after calls (call.lookup?_next_of_answer h)
    · exact ih h

/-- Two calls are answered with one address exactly if they are for one name. -/
theorem eq_iff_of_mem_answers {p q : String × Int} (hp : p ∈ store.answers calls) (hq : q ∈ store.answers calls) :
    p.1 = q.1 ↔ p.2 = q.2 := by
  have hp' := lookup?_of_mem_answers hp
  have hq' := lookup?_of_mem_answers hq
  constructor
  · intro hname
    rw [hname, hq'] at hp'
    exact (Option.some.inj hp').symm
  · intro haddress
    rw [haddress] at hp'
    exact lookup?_inj hp' hq'

/-- A new name gets the next slot, and keeps it with its value whatever comes later. -/
theorem after_add (value : Option Int) (rest : List Call) (h : name ∉ store.names) :
    (store.add name value).1 = store.stop ∧
      ((store.add name value).2.after rest).lookup? name = some store.stop ∧
      ((store.add name value).2.after rest).slots[store.length]? = some ⟨some name, value⟩ := by
  have hanswer : (store.add name value).1 = store.stop := by rw [add_eq (lookup?_none_iff.mpr h)]
  refine ⟨hanswer, ?_, slots_after rest (slots_add value h)⟩
  rw [← hanswer]
  exact lookup?_after rest (lookup?_add store name value)

/-- The address of a name is that of the slot that it took first, and its alone, as long as the store lives. The
store ends behind its slots, and its content has the value of each in its long word. -/
theorem addresses_lasting (title : String) (base : Int) (initialized : Bool) (calls : List Call) :
    let start := empty title base initialized
    let store := start.after calls
    (∀ p ∈ start.answers calls, ∀ q ∈ start.answers calls, p.1 = q.1 ↔ p.2 = q.2) ∧
      (∀ before name value rest, calls = before ++ .add name value :: rest →
        name ∉ before.filterMap Call.added? → ∃ place, place = (start.after before).length ∧
          ((start.after before).add name value).1 = base + 4 * place ∧
          store.lookup? name = some (base + 4 * place) ∧
          (∀ value', (store.add name value').1 = base + 4 * place) ∧
          store.slots[place]? = some ⟨some name, value⟩) ∧
      (∀ name, name ∉ calls.filterMap Call.added? → store.lookup? name = none) ∧
      store.stop = base + 4 * store.length ∧ (store.content.size : Int) = store.stop - base ∧
      ∀ i slot, store.slots[i]? = some slot → (slot.name = none → slot.value = none) ∧
        (store.content.field ⟨4 * i, 4⟩ : Int) = slot.value.getD 0 % 2 ^ 32 := by
  intro start store
  have hnames : ∀ calls name, name ∈ (start.after calls).names → name ∈ calls.filterMap Call.added? :=
    fun calls name hm ↦ ((mem_names_after start calls name).mp hm).resolve_left List.not_mem_nil
  have hstop : ∀ calls, (start.after calls).stop = base + 4 * (start.after calls).length := by
    intro calls
    rw [stop_eq, base_after]
    rfl
  refine ⟨fun p hp q hq ↦ eq_iff_of_mem_answers hp hq, ?_, fun name hn ↦ ?_, hstop calls, ?_,
    fun i slot hslot ↦ ⟨?_, field_content hslot⟩⟩
  · rintro before name value rest rfl hn
    obtain ⟨hanswer, hlookup, hslot⟩ := after_add value rest fun hm ↦ hn (hnames before name hm)
    have hstore : store = ((start.after before).add name value).2.after rest := after_append ..
    rw [← hstore, hstop] at hlookup
    rw [← hstore] at hslot
    refine ⟨_, rfl, hanswer.trans (hstop before), hlookup, fun value' ↦ ?_, hslot⟩
    rw [add_eq_of_lookup? value' hlookup]
  · exact lookup?_none_iff.mpr fun hm ↦ hn (hnames calls name hm)
  · rw [size_content, hstop, size, Int.natCast_mul, add_sub_cancel_left, mul_comm]
    rfl
  · obtain ⟨slots, hafter, hplain⟩ := start.after_eq calls
    have hm : slot ∈ (start.extend slots).slots := by
      rw [← hafter]
      exact Array.mem_of_getElem? hslot
    exact hplain slot ((mem_extend.mp hm).resolve_left (Array.not_mem_empty slot))

/-- Slots that an earlier load has taken lie between those of two names, of which one has a value below zero. -/
theorem addresses_lasting_sample :
    let start := empty "REFS" 0x2000 false
    let calls : List Call := [.add "a" none, .add "b" (some (-2)), .add "a" (some 7), .lookup "c", .reserve 2,
      .content, .add "c" none]
    let store := start.after calls
    store.lookup? "a" = some 0x2000 ∧ store.lookup? "b" = some 0x2004 ∧ store.lookup? "c" = some 0x2010 ∧
      store.lookup? "d" = none ∧ store.stop = 0x2014 ∧ (store.content.size : Int) = 0x14 ∧
      (store.content.field ⟨4 * 1, 4⟩ : Int) = 0xfffffffe ∧ (store.content.field ⟨4 * 2, 4⟩ : Int) = 0 ∧
      ∀ p ∈ start.answers calls, ∀ q ∈ start.answers calls, p.1 = q.1 ↔ p.2 = q.2 := by
  intro start calls store
  obtain ⟨hnames, hadded, hunknown, hstop, hsize, hwords⟩ := addresses_lasting "REFS" 0x2000 false calls
  have hsecond : (start.after (calls.take 1)).length = 1 := by decide +kernel
  have hfifth : (start.after (calls.take 6)).length = 4 := by decide +kernel
  have hlength : store.length = 5 := by decide +kernel
  obtain ⟨_, rfl, -, ha, -⟩ := hadded [] "a" none (calls.drop 1) rfl List.not_mem_nil
  obtain ⟨_, rfl, -, hb, -⟩ := hadded (calls.take 1) "b" (some (-2)) (calls.drop 2) rfl (by decide)
  obtain ⟨_, rfl, -, hc, -⟩ := hadded (calls.take 6) "c" none [] rfl (by decide)
  rw [hsecond] at hb
  rw [hfifth] at hc
  rw [hlength] at hstop
  rw [hstop] at hsize
  have hvalue := (hwords 1 ⟨some "b", some (-2)⟩ (by decide +kernel)).2
  have hempty := (hwords 2 ⟨none, none⟩ (by decide +kernel)).2
  exact ⟨ha, hb, hc, hunknown "d" (by decide), hstop, hsize, hvalue, hempty, hnames⟩

end Calls

end SlotStore

end Hunks
