import LiveRange.Dataflow.Solver
import LiveRange.SpillCost

/-! # Configurations of an analysis

A `Config` says how liveness is solved and how spill costs are estimated.  It is read from
a `Value`, a tree such as a JSON document holds:

* an object gives either choice by its name, `solver` or `spill_cost`; a choice that is not
  given has its default, and any other name is ignored;
* a list gives the choices in that order, and may leave out the last ones.

Nothing else is a configuration. -/

namespace LiveRange

/-- A tree of plain values. -/
inductive Value where
  | null
  | bool (b : Bool)
  /-- A number; which one never matters. -/
  | number
  | string (s : String)
  | list (items : List Value)
  | object (fields : List (String × Value))
deriving Inhabited

/-- How an analysis is carried out. -/
structure Config where
  solver : Dataflow.Solver := default
  spillCost : SpillCost := default
deriving DecidableEq, Inhabited

/-! ## Names of choices -/

def Dataflow.Solver.name : Dataflow.Solver → String
  | .roundRobin => "round_robin"
  | .worklist => "worklist"

def Dataflow.Solver.ofName? : String → Option Dataflow.Solver
  | "round_robin" => some .roundRobin
  | "worklist" => some .worklist
  | _ => none

def SpillCost.name : SpillCost → String
  | .uniform => "uniform"
  | .useDensity => "use_density"

def SpillCost.ofName? : String → Option SpillCost
  | "uniform" => some .uniform
  | "use_density" => some .useDensity
  | _ => none

/-! ## Reading -/

/-- The name that a value chooses: a string is a name, and so is the one key of an object
with nothing under it. -/
def Value.choice? : Value → Option String
  | .string s => some s
  | .object [(s, .null)] => some s
  | _ => none

namespace Config

/-- Reads an optional choice: no value stands for the default, and a value has to be one of
the names. -/
def readChoice? {α : Type} [Inhabited α] (ofName? : String → Option α) : Option Value → Option α
  | none => some default
  | some value => value.choice?.bind ofName?

def ofChoices? (solver spillCost : Option Value) : Option Config := do
  let solver ← readChoice? Dataflow.Solver.ofName? solver
  let spillCost ← readChoice? SpillCost.ofName? spillCost
  return { solver, spillCost }

def ofValue? : Value → Option Config
  | .object fields => ofChoices? (fields.lookup "solver") (fields.lookup "spill_cost")
  | .list [] => ofChoices? none none
  | .list [solver] => ofChoices? (some solver) none
  | .list [solver, spillCost] => ofChoices? (some solver) (some spillCost)
  | _ => none

end Config

end LiveRange
