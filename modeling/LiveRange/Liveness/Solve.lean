import LiveRange.Dataflow.Lattice
import LiveRange.Flow.Basic
import LiveRange.Liveness.Basic

/-! # Computing liveness

Liveness is the least solution of

* live-out of a node = the union of live-in over its successors;
* live-in of a node = what it uses, and what is live out of it and not defined by it.

`Liveness.compute` solves these equations from empty sets and `Liveness.solveFrom` from the
sets of another table.  `FlowGraph.problem` states them as a dataflow problem over sets of
numbers. -/

namespace LiveRange

namespace FlowGraph

/-- The nodes of a flow graph with their instructions and edges, by position. -/
def table (flow : FlowGraph) : Vector (NodeId × Node Instr) flow.size :=
  ⟨flow.graph.entries.toArray, List.size_toArray⟩

/-- The temporaries a flow graph mentions, numbered by first mention. -/
def numbering (flow : FlowGraph) : Numbering := .ofMentions (mentions flow.body)

/-- The liveness equations over numbered temporaries: a node generates what it uses and
kills what it defines.  A flow graph loses no node, so a handle's position is the position
of its instruction. -/
def problem (flow : FlowGraph) (numbering : Numbering) : Dataflow.Problem flow.size BitSet :=
  let gen := flow.table.map fun (_, node) => numbering.encode node.payload.uses
  let kill := flow.table.map fun (_, node) => numbering.encode node.payload.defs
  .genKill (fun i => (flow.table.get i).2.succs.map NodeId.index) gen.get kill.get

end FlowGraph

namespace Liveness

/-- Fuel for the liveness equations on `nodes` nodes and `temps` temporaries.  Started from
empty sets, the sets only grow: a pass that changes something adds a member to one of
`2 * nodes` sets, and a visit that makes a node due again adds one to the set after the
visited node.  So both solvers settle within it; started from a solution, they confirm it
in one visit to each node. -/
def budget (nodes temps : Nat) : Nat := 2 * (nodes + 1) * (nodes + 1) * (temps + 2)

/-- What a solver does with the liveness equations, from the given sets of numbers. -/
def run (flow : FlowGraph) (solver : Dataflow.Solver)
    (seed : Dataflow.Tables flow.size BitSet) : Dataflow.Run flow.size BitSet :=
  (flow.problem flow.numbering).solve solver (budget flow.size flow.numbering.size) seed

/-- Solves the liveness equations from the given sets of numbers. -/
def solve (flow : FlowGraph) (solver : Dataflow.Solver)
    (seed : Dataflow.Tables flow.size BitSet) : Liveness :=
  let run := run flow solver seed
  let rows := (List.finRange flow.size).map fun i =>
    ⟨(flow.table.get i).1, run.tables.ins.get i, run.tables.outs.get i⟩
  ⟨flow.numbering, rows, solver, run.steps⟩

def compute (flow : FlowGraph) (solver : Dataflow.Solver) : Liveness :=
  solve flow solver (.const _ ∅)

/-- What a table holds for a node, in another numbering.  A node the table does not know
starts empty, and a temporary that only one side numbers is left out. -/
def renumber (seed : Liveness) (numbering : Numbering) (set : LiveRow → BitSet)
    (node : NodeId) : BitSet :=
  match seed.row? node with
  | some row => numbering.encode (seed.numbering.decode (set row))
  | none => ∅

/-- The liveness of a flow graph, solved from the sets of a table. -/
def solveFrom (flow : FlowGraph) (seed : Liveness) (solver : Dataflow.Solver) : Liveness :=
  let numbering := flow.numbering
  solve flow solver
    ⟨flow.table.map fun (id, _) => seed.renumber numbering LiveRow.liveIn id,
     flow.table.map fun (id, _) => seed.renumber numbering LiveRow.liveOut id⟩

end Liveness

end LiveRange
