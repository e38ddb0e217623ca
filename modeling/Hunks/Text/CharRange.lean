namespace Hunks.Text

/-- Membership in a class of characters given by the bounds at which it starts and ends. -/
def inRanges (bounds : Array Nat) (c : Char) : Bool :=
  bounds.countP (· ≤ c.toNat) % 2 = 1

end Hunks.Text
