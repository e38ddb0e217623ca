namespace Hunks

/-- Values by number, in the order in which the numbers were first used. -/
abbrev IntMap (α : Type) := List (Int × α)

namespace IntMap

variable {α : Type}

def put (key : Int) (value : α) : IntMap α → IntMap α
  | [] => [(key, value)]
  | (other, old) :: map =>
    if other = key then (key, value) :: map else (other, old) :: put key value map

def get? (map : IntMap α) (key : Int) : Option α :=
  (map.find? fun (other, _) ↦ other = key).map Prod.snd

def values (map : IntMap α) : List α :=
  map.map Prod.snd

def sorted (map : IntMap α) : IntMap α :=
  map.mergeSort fun (a, _) (b, _) ↦ a ≤ b

end IntMap

end Hunks
