import LiveRange.Graph.Basic
import LiveRange.Name
import LiveRange.Text.Quoted

/-! # Graphs that find a node by its payload

In a `KeyedGraph` no two live nodes carry the same payload, so a payload is a key that
finds its node.  The index from keys to nodes changes with every operation that makes or
removes a node.

* `KeyedGraph.newNode` — a node for a key that has none;
* `KeyedGraph.nodeFor` — the node for a key, made at the first request;
* `KeyedGraph.lookup` — the node for a key, if there is one. -/

namespace LiveRange

/-- The key has a node, and a second one was asked for. -/
structure DuplicateKey (κ : Type) where
  key : κ
deriving DecidableEq

def DuplicateKey.message (e : DuplicateKey Temp) : String :=
  "duplicate key Temp(" ++ Text.quote e.key.name ++ ") in node index"

/-- A graph with an index from its payloads to its nodes. -/
structure KeyedGraph (κ : Type) [Ord κ] where
  graph : Graph κ
  index : Std.TreeMap κ NodeId compare

namespace KeyedGraph

variable {κ : Type} [Ord κ]

def empty (tag : GraphTag) : KeyedGraph κ := ⟨.empty tag, ∅⟩

/-- A copy under its own tag.  Its index leads to handles that the copy knows. -/
def clone (g : KeyedGraph κ) (tag : GraphTag) : KeyedGraph κ := ⟨g.graph.clone tag, g.index⟩

def lookup (g : KeyedGraph κ) (key : κ) : Option NodeId := g.index[key]?

def push (g : KeyedGraph κ) (key : κ) : NodeId × KeyedGraph κ :=
  let (id, graph) := g.graph.newNode key
  (id, ⟨graph, g.index.insert key id⟩)

def newNode (g : KeyedGraph κ) (key : κ) : Except (DuplicateKey κ) (NodeId × KeyedGraph κ) :=
  match g.lookup key with
  | some _ => .error ⟨key⟩
  | none => .ok (g.push key)

/-- The node for a key, made at the first request. -/
def nodeFor (g : KeyedGraph κ) (key : κ) : NodeId × KeyedGraph κ :=
  match g.lookup key with
  | some id => (id, g)
  | none => g.push key

def nodesFor (g : KeyedGraph κ) : List κ → List NodeId × KeyedGraph κ
  | [] => ([], g)
  | key :: keys =>
    let (id, g) := g.nodeFor key
    let (ids, g) := g.nodesFor keys
    (id :: ids, g)

def addEdge (g : KeyedGraph κ) (a b : NodeId) : Except Misuse (KeyedGraph κ) :=
  (fun graph => { g with graph }) <$> g.graph.addEdge a b

/-- Adds the edge between two live nodes unless it is there; any other pair of handles
changes nothing. -/
def link (g : KeyedGraph κ) (a b : NodeId) : KeyedGraph κ := { g with graph := g.graph.link a b }

def removeEdge (g : KeyedGraph κ) (a b : NodeId) : Except Misuse (KeyedGraph κ) :=
  (fun graph => { g with graph }) <$> g.graph.removeEdge a b

/-- Removes a node with its edges and its entry in the index, and gives back its key. -/
def removeNode (g : KeyedGraph κ) (id : NodeId) : Except Misuse (κ × KeyedGraph κ) :=
  (fun (key, graph) => (key, ⟨graph, g.index.erase key⟩)) <$> g.graph.removeNode id

end KeyedGraph

end LiveRange
