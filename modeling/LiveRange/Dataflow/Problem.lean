/-! # Backward dataflow problems

A `Problem` gives a value to each node of a graph on `n` nodes by the equations

* `outs[i]` = the meet, starting from `bottom`, of `ins[s]` over the successors `s` of `i`;
* `ins[i]` = `transfer i outs[i]`.

A solver starts from given `Tables` of values and visits nodes until nothing changes;
`Problem.visit` is what both solvers do at a node.  A `Run` says how a solver fared: the
tables it ended with, the nodes it visited on the way, and whether the tables settled.

The successors are plain numbers, so a table of successors may lead outside the graph.
A solver that comes to such a number stops and reports it as `OutOfRange`. -/

namespace LiveRange.Dataflow

universe u

/-- A successor that is no node. -/
structure OutOfRange where
  index : Nat
  size : Nat
deriving DecidableEq

def OutOfRange.message (e : OutOfRange) : String :=
  "index out of bounds: the len is " ++ toString e.size ++ " but the index is " ++ toString e.index

/-- A backward dataflow problem on `n` nodes with values in `α`. -/
structure Problem (n : Nat) (α : Type u) where
  /-- The successors of each node; one may stand there several times. -/
  succs : Fin n → List Nat
  bottom : α
  meet : α → α → α
  /-- The value before a node, given the value after it. -/
  transfer : Fin n → α → α

/-- A value before and a value after each node. -/
structure Tables (n : Nat) (α : Type u) where
  ins : Vector α n
  outs : Vector α n
deriving DecidableEq

variable {n : Nat} {α : Type u}

def Tables.const (n : Nat) (a : α) : Tables n α := ⟨.replicate n a, .replicate n a⟩

/-- How far a solver has come: its tables, and the nodes it has visited, in order. -/
structure Progress (n : Nat) (α : Type u) where
  tables : Tables n α
  visits : Array (Fin n) := #[]

/-- How a solver came to an end. -/
inductive Status where
  /-- Nothing was left to change. -/
  | settled
  /-- A successor is no node. -/
  | outOfRange (e : OutOfRange)
  /-- The fuel was used up before nothing was left to change. -/
  | outOfFuel
deriving DecidableEq

/-- What a solver did. -/
structure Run (n : Nat) (α : Type u) where
  tables : Tables n α
  /-- The visited nodes, in order. -/
  visits : List (Fin n)
  /-- The number of steps: passes or visits, depending on the solver. -/
  steps : Nat
  status : Status

def Progress.stop (progress : Progress n α) (steps : Nat) (status : Status) : Run n α :=
  ⟨progress.tables, progress.visits.toList, steps, status⟩

namespace Problem

/-- The value after a node: the meet of the values before its successors.  The first
successor that is no node is reported. -/
def read (p : Problem n α) (ins : Vector α n) (i : Fin n) : Except OutOfRange α :=
  (p.succs i).foldlM (fun value s =>
    if h : s < n then .ok (p.meet value ins[s]) else .error ⟨s, n⟩) p.bottom

/-- Visits a node: computes the values after and before it and writes both down.  The
second answer says whether either has changed. -/
def visit [DecidableEq α] (p : Problem n α) (progress : Progress n α) (i : Fin n) :
    Except OutOfRange (Progress n α × Bool) := do
  let old := progress.tables
  let out ← p.read old.ins i
  let value := p.transfer i out
  let changed := out ≠ old.outs.get i ∨ value ≠ old.ins.get i
  let tables := ⟨old.ins.set i value i.isLt, old.outs.set i out i.isLt⟩
  return (⟨tables, progress.visits.push i⟩, changed)

end Problem

end LiveRange.Dataflow
