import Hunks.Bytes

namespace Hunks

structure Slot where
  name : Option String
  value : Option Int
  deriving DecidableEq, Repr

/-- A region of long words, one for each symbol. It only grows, so a slot never moves; a slot
without a name is taken by an earlier load. -/
structure SlotStore where
  name : String
  base : Int
  initialized : Bool
  slots : Array Slot
  deriving DecidableEq, Repr

namespace SlotStore

def slotSize : Nat := 4

def empty (name : String) (base : Int) (initialized : Bool) : SlotStore :=
  ⟨name, base, initialized, #[]⟩

def length (store : SlotStore) : Nat :=
  store.slots.size

def size (store : SlotStore) : Nat :=
  store.length * slotSize

def stop (store : SlotStore) : Int :=
  store.base + store.size

def addressOf (store : SlotStore) (index : Int) : Int :=
  store.base + index * slotSize

def lookup? (store : SlotStore) (name : String) : Option Int :=
  (store.slots.findIdx? fun slot ↦ slot.name = some name).map fun index ↦ store.addressOf index

/-- The first slot of a name stays its slot, with the value it got first. -/
def add (name : String) (value : Option Int) (store : SlotStore) : Int × SlotStore :=
  match store.lookup? name with
  | some address => (address, store)
  | none =>
    (store.addressOf store.length, { store with slots := store.slots.push ⟨some name, value⟩ })

/-- Skips slots that an earlier load created. -/
def reserve (n : Int) (store : SlotStore) : SlotStore :=
  { store with slots := store.slots ++ Array.replicate n.toNat ⟨none, none⟩ }

/-- A slot without a value holds zero. -/
def content (store : SlotStore) : Bytes :=
  (store.slots.toList.flatMap fun slot ↦ Bytes.long (slot.value.getD 0)).toArray

end SlotStore

end Hunks
