import LiveRange.Graph.NodeId

/-! # Directed graphs with stable handles

A `Graph P` holds nodes that carry a payload of type `P`, and directed edges between
them.  Nodes stand in slots in the order of their creation.  Removing a node empties its
slot and keeps the slot, so the handles of the other nodes stay valid.

Each slot keeps the tag of the graph that created it.  A copy starts with the slots of
the graph it was taken from, so it knows the handles that existed by then; a node added
later to either of the two stands in a slot with that one's own tag, so the other does
not know it.

* `Graph.newNode`, `Graph.addEdge`, `Graph.removeEdge`, `Graph.removeNode`, `Graph.clone`
  — the operations that make graphs;
* `Graph.successors`, `Graph.predecessors`, `Graph.degree`, `Graph.goesTo`, … — questions
  about one node or edge, which refuse a handle that names no live node;
* `Graph.contains`, `Graph.get?`, `Graph.nodes`, `Graph.size`, `Graph.edgeCount` — questions
  that always have an answer;
* `Misuse` — why a handle is refused.

Edges are stored at both ends and at most once, in the order in which they were added. -/

namespace LiveRange

/-- Why a graph refuses a handle. -/
inductive Misuse where
  /-- The handle comes from a graph outside this one's line of copies. -/
  | foreign (node : NodeId)
  /-- The handle named a node of this graph that was removed. -/
  | removed (node : NodeId)
deriving DecidableEq

def Misuse.message : Misuse → String
  | .foreign node => "node " ++ node.text ++ " belongs to a different graph"
  | .removed node => "node " ++ node.text ++ " has been removed from this graph"

/-- A node: its payload, and the far ends of the edges that leave it and enter it. -/
structure Node (P : Type) where
  payload : P
  succs : List NodeId
  preds : List NodeId
deriving DecidableEq

def Node.isolated {P : Type} (payload : P) : Node P := ⟨payload, [], []⟩

/-- A node without the edges that touch `id`. -/
def Node.without {P : Type} (node : Node P) (id : NodeId) : Node P :=
  { node with succs := node.succs.filter (· ≠ id), preds := node.preds.filter (· ≠ id) }

/-- The place of a node in a graph, empty once the node is removed. -/
structure Slot (P : Type) where
  /-- The tag of the graph that created the node. -/
  tag : GraphTag
  node? : Option (Node P)
deriving DecidableEq

/-- A directed graph whose nodes carry payloads. -/
structure Graph (P : Type) where
  /-- The tag under which this graph creates nodes. -/
  tag : GraphTag
  slots : Array (Slot P)
deriving DecidableEq

namespace Graph

variable {P : Type}

/-! ## Nodes -/

def empty (tag : GraphTag) : Graph P := ⟨tag, #[]⟩

/-- A copy under its own tag.  It knows every handle the graph knows now. -/
def clone (g : Graph P) (tag : GraphTag) : Graph P := ⟨tag, g.slots⟩

def newNode (g : Graph P) (payload : P) : NodeId × Graph P :=
  (⟨g.tag, g.slots.size⟩, { g with slots := g.slots.push ⟨g.tag, some (.isolated payload)⟩ })

/-- The graph with one node for each payload, in that order, and no edges. -/
def ofPayloads (tag : GraphTag) (payloads : List P) : Graph P :=
  payloads.foldl (fun g payload => (g.newNode payload).2) (empty tag)

/-- Whether a handle was given out on this graph's line of copies, be the node live or
removed. -/
def knows (g : Graph P) (id : NodeId) : Bool :=
  g.slots[id.index]?.any fun slot => slot.tag = id.tag

/-- The live node a handle names, if it names one. -/
def node? (g : Graph P) (id : NodeId) : Option (Node P) :=
  g.slots[id.index]?.bind fun slot => if slot.tag = id.tag then slot.node? else none

/-- The live node a handle names; any other handle is refused. -/
def node (g : Graph P) (id : NodeId) : Except Misuse (Node P) :=
  match g.node? id with
  | some node => .ok node
  | none => .error (if g.knows id then .removed id else .foreign id)

/-- The live nodes with their handles, in the order of their creation. -/
def entries (g : Graph P) : List (NodeId × Node P) :=
  g.slots.toList.zipIdx.filterMap fun (slot, i) => slot.node?.map fun node => (⟨slot.tag, i⟩, node)

def nodes (g : Graph P) : List NodeId := g.entries.map Prod.fst

def contains (g : Graph P) (id : NodeId) : Bool := (g.node? id).isSome

def get? (g : Graph P) (id : NodeId) : Option P := (g.node? id).map Node.payload

def payload (g : Graph P) (id : NodeId) : Except Misuse P := Node.payload <$> g.node id

def size (g : Graph P) : Nat := g.entries.length

def isEmpty (g : Graph P) : Bool := g.entries.isEmpty

def edgeCount (g : Graph P) : Nat := (g.entries.flatMap fun (_, node) => node.succs).length

/-! ## Edges -/

/-- Changes a live node; any other handle changes nothing. -/
def modify (g : Graph P) (id : NodeId) (f : Node P → Node P) : Graph P :=
  { g with slots := g.slots.modify id.index fun slot =>
      if slot.tag = id.tag then { slot with node? := slot.node?.map f } else slot }

/-- Adds the edge between two live nodes unless it is there; any other pair of handles
changes nothing. -/
def link (g : Graph P) (a b : NodeId) : Graph P :=
  match g.node? a, g.node? b with
  | some source, some _ =>
    if b ∈ source.succs then g
    else (g.modify a fun node => { node with succs := node.succs ++ [b] }).modify b
      fun node => { node with preds := node.preds ++ [a] }
  | _, _ => g

def linkAll (g : Graph P) (edges : List (NodeId × NodeId)) : Graph P :=
  edges.foldl (fun g (a, b) => g.link a b) g

/-- Adds the edge from `a` to `b` unless it is there.  Where both handles are refused, the
target is reported. -/
def addEdge (g : Graph P) (a b : NodeId) : Except Misuse (Graph P) := do
  let _ ← g.node b
  let _ ← g.node a
  return g.link a b

/-- Removes the edge from `a` to `b` if it is there.  Where both handles are refused, the
source is reported. -/
def removeEdge (g : Graph P) (a b : NodeId) : Except Misuse (Graph P) := do
  let _ ← g.node a
  let _ ← g.node b
  return (g.modify a fun node => { node with succs := node.succs.filter (· ≠ b) }).modify b
    fun node => { node with preds := node.preds.filter (· ≠ a) }

/-- Removes a node and every edge that touches it, and gives back its payload. -/
def removeNode (g : Graph P) (id : NodeId) : Except Misuse (P × Graph P) := do
  let node ← g.node id
  let slots := g.slots.mapIdx fun i slot =>
    { slot with node? := if i = id.index then none else slot.node?.map (·.without id) }
  return (node.payload, { g with slots })

/-- The far ends of the edges that leave a node, in the order of the edges. -/
def successors (g : Graph P) (id : NodeId) : Except Misuse (List NodeId) :=
  Node.succs <$> g.node id

/-- The far ends of the edges that enter a node, in the order of the edges. -/
def predecessors (g : Graph P) (id : NodeId) : Except Misuse (List NodeId) :=
  Node.preds <$> g.node id

def adj (g : Graph P) (id : NodeId) : Except Misuse (List NodeId) :=
  (fun node => node.succs ++ node.preds) <$> g.node id

def inDegree (g : Graph P) (id : NodeId) : Except Misuse Nat :=
  (fun node => node.preds.length) <$> g.node id

def outDegree (g : Graph P) (id : NodeId) : Except Misuse Nat :=
  (fun node => node.succs.length) <$> g.node id

def degree (g : Graph P) (id : NodeId) : Except Misuse Nat :=
  (fun node => node.preds.length + node.succs.length) <$> g.node id

/-- Whether there is an edge from `a` to `b`.  Only `a` has to be live. -/
def goesTo (g : Graph P) (a b : NodeId) : Except Misuse Bool :=
  (fun node => decide (b ∈ node.succs)) <$> g.node a

/-- Whether there is an edge from `b` to `a`.  Only `a` has to be live. -/
def comesFrom (g : Graph P) (a b : NodeId) : Except Misuse Bool :=
  (fun node => decide (b ∈ node.preds)) <$> g.node a

/-- Whether there is an edge between `a` and `b`, in either direction.  Only `a` has to be
live. -/
def isAdjacent (g : Graph P) (a b : NodeId) : Except Misuse Bool :=
  (fun node => decide (b ∈ node.succs) || decide (b ∈ node.preds)) <$> g.node a

end Graph

end LiveRange
