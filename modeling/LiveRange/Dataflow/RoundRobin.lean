import LiveRange.Dataflow.Problem

/-! # Solving by full passes

`Problem.roundRobin` visits all nodes from the last to the first, again and again, until
a pass changes nothing.  Its steps are the passes, the last one included. -/

namespace LiveRange.Dataflow

universe u

variable {n : Nat} {α : Type u}

/-- The nodes from the last to the first, the order of the visits in a pass. -/
def backward (n : Nat) : List (Fin n) := (List.finRange n).reverse

/-- How a pass ended. -/
structure Pass (n : Nat) (α : Type u) where
  progress : Progress n α
  /-- Whether a visit changed a value. -/
  changed : Bool
  /-- The successor at which the pass broke off, if one is no node. -/
  fault? : Option OutOfRange

namespace Problem

variable [DecidableEq α]

/-- Visits nodes in the given order.  `changed` tells of the visits before. -/
def sweep (p : Problem n α) : List (Fin n) → Progress n α → Bool → Pass n α
  | [], progress, changed => ⟨progress, changed, none⟩
  | i :: rest, progress, changed =>
    match p.visit progress i with
    | .ok (progress, here) => p.sweep rest progress (changed || here)
    | .error e => ⟨progress, changed, some e⟩

/-- Makes passes until one changes nothing, at most `fuel` of them, after `passes` passes
that did change something. -/
def makePasses (p : Problem n α) : (fuel passes : Nat) → Progress n α → Run n α
  | 0, passes, progress => progress.stop passes .outOfFuel
  | fuel + 1, passes, progress =>
    match p.sweep (backward n) progress false with
    | ⟨progress, _, some e⟩ => progress.stop (passes + 1) (.outOfRange e)
    | ⟨progress, true, none⟩ => p.makePasses fuel (passes + 1) progress
    | ⟨progress, false, none⟩ => progress.stop (passes + 1) .settled

def roundRobin (p : Problem n α) (fuel : Nat) (seed : Tables n α) : Run n α :=
  p.makePasses fuel 0 ⟨seed, #[]⟩

end Problem

end LiveRange.Dataflow
