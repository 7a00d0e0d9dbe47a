import LiveRange.Dataflow.Problem
import Std.Data.ExtTreeSet

/-! # Two families of dataflow problems

* `genKill` — the values are sets; a node passes on what is not in its `kill` and adds its
  `gen`.
* `capped` — the values are integers; a node adds its weight, and no value exceeds a cap. -/

namespace LiveRange.Dataflow.Problem

/-- The problem over sets in which node `i` turns `out` into
`gen i ∪ (out \ kill i)`. -/
def genKill {n : Nat} {σ : Type} [EmptyCollection σ] [Union σ] [SDiff σ]
    (succs : Fin n → List Nat) (gen kill : Fin n → σ) : Problem n σ where
  succs
  bottom := ∅
  meet a b := a ∪ b
  transfer i out := gen i ∪ (out \ kill i)

/-- The problem over integers in which node `i` turns `out` into the smaller of `cap` and
`out + weight i`, and several values meet in the greatest. -/
def capped {n : Nat} (succs : Fin n → List Nat) (cap : Int) (weight : Fin n → Int) :
    Problem n Int where
  succs
  bottom := 0
  meet a b := if a ≤ b then b else a
  transfer i out := if cap ≤ out + weight i then cap else out + weight i

end LiveRange.Dataflow.Problem
