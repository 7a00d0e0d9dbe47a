/-! # Spill costs

How much is lost by keeping a temporary in memory, as an allocator estimates it: it spills
the cheapest candidates first. -/

namespace LiveRange

/-- How the cost of a temporary is estimated. -/
inductive SpillCost where
  /-- Every temporary costs 1. -/
  | uniform
  /-- A temporary costs its occurrences, divided by one more than the number of its
  neighbors.  A machine register is never spilled. -/
  | useDensity
deriving DecidableEq

/-- The model used where none is named. -/
instance : Inhabited SpillCost := ⟨.useDensity⟩

def SpillCost.never : Float := 1.0 / 0.0

def SpillCost.cost (model : SpillCost) (occurrences degree : Nat) (precolored : Bool) : Float :=
  match model with
  | .uniform => 1.0
  | .useDensity =>
    if precolored then never else Float.ofNat occurrences / (Float.ofNat degree + 1.0)

end LiveRange
