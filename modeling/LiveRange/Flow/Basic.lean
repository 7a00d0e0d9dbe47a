import LiveRange.Error
import LiveRange.Graph.Basic
import LiveRange.Instr.Basic

/-! # Flow graphs

A `FlowGraph` has one node for each instruction of a body, in that order, and an edge from
`a` to `b` when `b` may execute right after `a`: from an instruction that falls through to
the next one, and from a jump to the places its labels stand for.

* `labelTable` — where each label of a body is defined; a label defined twice is an error;
* `flowEdges` — the edges of a body; a jump to a label nowhere defined is an error;
* `FlowGraph.build` — the flow graph of a body;
* `FlowGraph.instr`, `FlowGraph.defs`, `FlowGraph.successors`, … — what is known of a
  node, or that the handle names none.

A flow graph does not change once it is built.  All label definitions are looked at before
any jump, so a label defined twice is reported even when a jump before it leads nowhere. -/

namespace LiveRange

/-- The position in a body of the instruction that defines each label. -/
abbrev LabelTable := Std.TreeMap Label Nat compare

def labelTable (body : List Instr) : Except AnalysisError LabelTable :=
  body.zipIdx.foldlM (fun table (instr, position) =>
    match instr.definedLabel? with
    | none => .ok table
    | some label =>
      match table[label]? with
      | some first => .error (.duplicateLabel label first position)
      | none => .ok (table.insert label position)) ∅

/-- The position of the place a jump target names. -/
def LabelTable.resolve (labels : LabelTable) (position : Nat) (target : Label) :
    Except AnalysisError Nat :=
  match labels[target]? with
  | some place => .ok place
  | none => .error (.undefinedLabel target position)

/-- The positions that may execute right after the instruction at `position` in a body of
`size` instructions: the next one if control falls through to it, then the jump targets in
order. -/
def Instr.nextPositions (instr : Instr) (labels : LabelTable) (size position : Nat) :
    Except AnalysisError (List Nat) := do
  let places ← instr.targets.mapM (labels.resolve position)
  return (if instr.fallsThrough && position + 1 < size then [position + 1] else []) ++ places

/-- The pairs of positions of which the second may execute right after the first, by
increasing first position. -/
def flowEdges (labels : LabelTable) (body : List Instr) :
    Except AnalysisError (List (Nat × Nat)) := do
  let next ← body.zipIdx.mapM fun (instr, position) =>
    (·.map (position, ·)) <$> instr.nextPositions labels body.length position
  return next.flatten

/-- A graph of instructions, with an edge to whatever may execute next. -/
structure FlowGraph where
  graph : Graph Instr
deriving DecidableEq

namespace FlowGraph

/-- The flow graph of a body, or the first fault of its labels. -/
def build (tag : GraphTag) (body : List Instr) : Except AnalysisError FlowGraph := do
  let labels ← labelTable body
  let edges ← flowEdges labels body
  return ⟨(Graph.ofPayloads tag body).linkAll (edges.map fun (a, b) => (⟨tag, a⟩, ⟨tag, b⟩))⟩

def clone (flow : FlowGraph) (tag : GraphTag) : FlowGraph := ⟨flow.graph.clone tag⟩

def nodes (flow : FlowGraph) : List NodeId := flow.graph.nodes

def body (flow : FlowGraph) : List Instr := flow.graph.entries.map (·.2.payload)

def size (flow : FlowGraph) : Nat := flow.graph.size

def isEmpty (flow : FlowGraph) : Bool := flow.graph.isEmpty

def contains (flow : FlowGraph) (id : NodeId) : Bool := flow.graph.contains id

def node (flow : FlowGraph) (id : NodeId) : Except AnalysisError (Node Instr) :=
  match flow.graph.node? id with
  | some node => .ok node
  | none => .error (.nodeNotFound id)

def instr (flow : FlowGraph) (id : NodeId) : Except AnalysisError Instr :=
  Node.payload <$> flow.node id

def defs (flow : FlowGraph) (id : NodeId) : Except AnalysisError (List Temp) :=
  Instr.defs <$> flow.instr id

def uses (flow : FlowGraph) (id : NodeId) : Except AnalysisError (List Temp) :=
  Instr.uses <$> flow.instr id

def isMove (flow : FlowGraph) (id : NodeId) : Except AnalysisError Bool :=
  Instr.isMove <$> flow.instr id

/-- The nodes that may execute right after a node. -/
def successors (flow : FlowGraph) (id : NodeId) : Except AnalysisError (List NodeId) :=
  Node.succs <$> flow.node id

/-- The nodes right after which a node may execute. -/
def predecessors (flow : FlowGraph) (id : NodeId) : Except AnalysisError (List NodeId) :=
  Node.preds <$> flow.node id

end FlowGraph

end LiveRange
